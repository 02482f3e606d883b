import HyperPoc.Library.LinkedList
import HyperPoc.Trap.Contained
import HyperPoc.Trap.StoredWord
import HyperPoc.Trap.Stores
import HyperPoc.Vgic.Redistributor
import HyperPoc.Vm.Extends

/-! # The traps that a guest survives

The hypervisor stops for ever at a trap that it cannot handle. Which traps these are is decided by the
syndrome, the address and few registers, the same after any number of traps.
-/
namespace HyperPoc.Trap
open Library.LinkedList Library.Memory Library.Packing Library.Run Vgic
set_option autoImplicit false

/-- Offsets at which the emulated device lets a load return. -/
def AnswersRead (nvcpu offset : Nat) : Handler → Prop
  | .vgicd => True
  | .vgicr => offset / gicrStride < nvcpu ∧ gicrReg (offset % gicrStride) ≠ none ∧
      gicrReg (offset % gicrStride) ≠ some .igrpmodr0
  | .virtio => offset ∈ [0x00, 0x04, 0x08, 0x0c, 0x10, 0x34, 0x40, 0x44, 0x60, 0x70]

/-- The same for a store of `val`. The notification of the queue is left to the backend. -/
def AnswersWrite (n : Nat) (b : Board) (vm nvcpu offset val : Nat) : Handler → Prop
  | .vgicd => ∀ k, gicdReg offset = some (.itargetsr k) → 8 ≤ k
  | .vgicr => offset / gicrStride < nvcpu ∧ gicrReg (offset % gicrStride) ≠ none
  | .virtio => offset ∈ [0x20, 0x30, 0x38, 0x3c, 0x40, 0x44, 0x64, 0x70] ∨ (offset = 0x28 ∧ val = pageSize) ∨
      (offset = 0x50 ∧ ∃ s, Virtio.virtioBlkReqHandler n (b.backend vm) = .ok s)

section
variable {w : Wiring} {b : Board} {j offset val : Nat}

theorem vgicdMmioRead_returns (h : Wired w b.hv) (hj : j < w.nvcpu) (offset val : Nat) :
    ∃ v, vgicdMmioRead b (w.vcpu j) offset val = .ok (0, v) := by
  rw [vgicdMmioRead, h.vm j hj, deref, ok_bind]
  cases gicdReg offset with
  | none => exact ⟨_, rfl⟩
  | some reg =>
    cases reg with
    | ctlr =>
      dsimp only
      rw [h.vgic, deref, ok_bind]
      exact ⟨_, rfl⟩
    | isenabler n | icenabler n | ipriorityr n | itargetsr n =>
      dsimp only
      rw [readLoop_eq h hj]
      exact ⟨_, rfl⟩
    | _ => exact ⟨_, rfl⟩

theorem gicrIdx_eq (hOffset : offset < gicrSize) : offset / gicrStride % 2 ^ 32 = offset / gicrStride := by
  rw [gicrSize] at hOffset
  rw [gicrStride]
  omega

theorem gicrPriorityIntid_nat (hOffset : offset < gicrSize) :
    gicrPriorityIntid offset = ((offset - 0x10400) / 4 * 4 : Nat) := by
  rw [gicrSize] at hOffset
  rw [gicrPriorityIntid, toInt32_of_lt (by omega)]

theorem vgicrMmioRead_frame (h : Wired w b.hv) (hj : j < w.nvcpu) (hOffset : offset < gicrSize)
    (hFrame : offset / gicrStride < w.nvcpu) (val : Nat) : ∃ ret v,
      vgicrMmioRead b (w.vcpu j) offset val = .ok (ret, v) ∧
      (ret < 0 ↔ gicrReg (offset % gicrStride) = none ∨ gicrReg (offset % gicrStride) = some .igrpmodr0) := by
  rw [vgicrMmioRead, h.gicrFrame_eq hj, gicrIdx_eq hOffset, if_pos hFrame, ok_bind]
  dsimp only
  cases gicrReg (offset % gicrStride) with
  | none => exact ⟨-1, _, rfl, by simp⟩
  | some reg =>
    cases reg with
    | igrpmodr0 => exact ⟨-1, _, rfl, by simp⟩
    | isenabler0 | icenabler0 =>
      dsimp only
      rw [deref, ok_bind, ← Int.natCast_zero, readLoop_eq h hFrame]
      exact ⟨0, _, rfl, by simp⟩
    | ipriorityr =>
      dsimp only
      rw [deref, ok_bind, gicrPriorityIntid_nat hOffset, readLoop_eq h hFrame]
      exact ⟨0, _, rfl, by simp⟩
    | _ => exact ⟨0, _, rfl, by simp⟩

theorem virtioMmioRead_returns (offset val : Nat) : (∃ v, Virtio.virtioMmioRead offset val = .ok v) ↔
    offset ∈ [0x00, 0x04, 0x08, 0x0c, 0x10, 0x34, 0x40, 0x44, 0x60, 0x70] := by
  unfold Virtio.virtioMmioRead
  split
  case h_11 =>
    refine iff_of_false ?_ ?_
    · rintro ⟨v, hEq⟩
      cases hEq
    · simp only [List.mem_cons, List.not_mem_nil, or_false, not_or]
      exact ⟨by assumption, by assumption, by assumption, by assumption, by assumption, by assumption, by assumption,
        by assumption, by assumption, by assumption⟩
  all_goals exact iff_of_true ⟨_, rfl⟩ (by decide)

theorem virtioMmioWrite_returns (n : Nat) (s : Virtio.Backend) (offset val : Nat) :
    (∃ s', Virtio.virtioMmioWrite n s offset val = .ok s') ↔
      offset ∈ [0x20, 0x30, 0x38, 0x3c, 0x40, 0x44, 0x64, 0x70] ∨ (offset = 0x28 ∧ val = pageSize) ∨
        (offset = 0x50 ∧ ∃ s', Virtio.virtioBlkReqHandler n s = .ok s') := by
  unfold Virtio.virtioMmioWrite
  split
  case h_2 =>
    by_cases hVal : val = pageSize
    · rw [if_neg (not_not.mpr hVal)]
      exact iff_of_true ⟨_, rfl⟩ (.inr (.inl ⟨rfl, hVal⟩))
    · rw [if_pos hVal]
      refine iff_of_false ?_ ?_
      · rintro ⟨s', hEq⟩
        cases hEq
      · simp [hVal]
  case h_6 =>
    obtain ⟨s', hRing, _⟩ := vqRingInit_returns s (u64 (val <<< 12))
    exact iff_of_true ⟨s', hRing⟩ (.inl (by decide))
  case h_8 => simp
  case h_11 =>
    refine iff_of_false ?_ ?_
    · rintro ⟨v, hEq⟩
      cases hEq
    · simp_all
  all_goals exact iff_of_true ⟨_, rfl⟩ (.inl (by decide))

theorem callRead_answers (h : Wired w b.hv) (hj : j < w.nvcpu) (handler : Handler)
    (hOffset : offset < (windowOf handler).2) (val : Nat) :
    (∃ ret v, callRead b (w.vcpu j) offset val handler = .ok (ret, v) ∧ ¬ret < 0) ↔
      AnswersRead w.nvcpu offset handler := by
  cases handler with
  | vgicd =>
    obtain ⟨v, hRead⟩ := vgicdMmioRead_returns h hj offset val
    exact ⟨fun _ => trivial, fun _ => ⟨0, v, hRead, by decide⟩⟩
  | vgicr =>
    rw [AnswersRead, callRead]
    by_cases hFrame : offset / gicrStride < w.nvcpu
    · obtain ⟨ret, v, hRead, hRet⟩ := vgicrMmioRead_frame h hj hOffset hFrame val
      rw [hRead]
      simp only [Except.ok.injEq, Prod.mk.injEq, hFrame, true_and]
      constructor
      · rintro ⟨ret', v', ⟨rfl, rfl⟩, hPos⟩
        rw [hRet, not_or] at hPos
        exact hPos
      · intro hReg
        exact ⟨ret, v, ⟨rfl, rfl⟩, by rw [hRet, not_or]; exact hReg⟩
    · rw [vgicrMmioRead, h.gicrFrame_eq hj, gicrIdx_eq hOffset, if_neg hFrame, ok_bind]
      refine iff_of_false ?_ (fun hAnswers => hFrame hAnswers.1)
      rintro ⟨ret, v, hEq, hPos⟩
      cases hEq
      exact hPos (by decide)
  | virtio =>
    rw [AnswersRead, ← virtioMmioRead_returns offset val, callRead]
    constructor
    · rintro ⟨ret, v, hRun, _⟩
      obtain ⟨v', hRead, _⟩ := bind_eq_ok.mp hRun
      exact ⟨v', hRead⟩
    · rintro ⟨v, hRead⟩
      rw [hRead]
      exact ⟨0, v, rfl, by decide⟩

theorem vgicdMmioWrite_returns (h : Wired w b.hv) (hj : j < w.nvcpu) (cpu offset val : Nat) :
    (∃ b', vgicdMmioWrite b cpu (w.vcpu j) offset val = .ok (b', 0)) ∧
    (∀ k, gicdReg offset = some (.itargetsr k) → 8 ≤ k) ∨
    vgicdMmioWrite b cpu (w.vcpu j) offset val = .error (.panic "[vgicd_mmio_write] invalid intid=%d\n") ∧
      ∃ k, gicdReg offset = some (.itargetsr k) ∧ k < 8 := by
  rw [vgicdMmioWrite, h.vm j hj, deref, ok_bind]
  cases gicdReg offset with
  | none => exact .inl ⟨⟨_, rfl⟩, by simp⟩
  | some reg =>
    cases reg with
    | itargetsr k =>
      dsimp only
      by_cases hk : 8 ≤ k
      · rw [writeTargets_eq h hj cpu (by omega)]
        refine .inl ⟨⟨_, rfl⟩, ?_⟩
        rintro k' hEq
        cases hEq
        exact hk
      · rw [writeTargets_panics h hj cpu val (by omega)]
        exact .inr ⟨rfl, k, rfl, by omega⟩
    | ctlr =>
      dsimp only
      rw [h.vgic, deref, ok_bind]
      exact .inl ⟨⟨_, rfl⟩, by simp⟩
    | isenabler n | icenabler n =>
      dsimp only
      rw [writeEnables_eq h hj]
      exact .inl ⟨⟨_, rfl⟩, by simp⟩
    | ipriorityr n =>
      dsimp only
      rw [writePriorities_eq h hj]
      exact .inl ⟨⟨_, rfl⟩, by simp⟩
    | _ => exact .inl ⟨⟨_, rfl⟩, by simp⟩

theorem vgicrMmioWrite_frame (h : Wired w b.hv) (hj : j < w.nvcpu) (hOffset : offset < gicrSize)
    (hFrame : offset / gicrStride < w.nvcpu) (cpu val : Nat) :
    ∃ ret b', vgicrMmioWrite b cpu (w.vcpu j) offset val = .ok (b', ret) ∧
      (ret < 0 ↔ gicrReg (offset % gicrStride) = none) := by
  rw [vgicrMmioWrite, h.gicrFrame_eq hj, gicrIdx_eq hOffset, if_pos hFrame, ok_bind]
  dsimp only
  cases gicrReg (offset % gicrStride) with
  | none => exact ⟨-1, _, rfl, by simp⟩
  | some reg =>
    cases reg with
    | isenabler0 | icenabler0 =>
      dsimp only
      rw [deref, ok_bind, ← Int.natCast_zero, writeEnables_eq h hFrame]
      exact ⟨0, _, rfl, by simp⟩
    | ipriorityr =>
      dsimp only
      rw [deref, ok_bind, gicrPriorityIntid_nat hOffset, writePriorities_eq h hFrame]
      exact ⟨0, _, rfl, by simp⟩
    | _ => exact ⟨0, _, rfl, by simp⟩

theorem callWrite_answers (h : Wired w b.hv) (hj : j < w.nvcpu) (handler : Handler)
    (hOffset : offset < (windowOf handler).2) (n cpu val : Nat) :
    (∃ b' ret, callWrite n b cpu (w.vcpu j) offset val handler = .ok (b', ret) ∧ ¬ret < 0) ↔
      AnswersWrite n b w.vm w.nvcpu offset val handler := by
  cases handler with
  | vgicd =>
    rw [AnswersWrite, callWrite]
    obtain ⟨⟨b', hWrite⟩, hReg⟩ | ⟨hWrite, k, hReg, hk⟩ := vgicdMmioWrite_returns h hj cpu offset val
    · exact iff_of_true ⟨b', 0, hWrite, by decide⟩ hReg
    · refine iff_of_false ?_ (fun hAll => Nat.not_le.mpr hk (hAll k hReg))
      rintro ⟨b', ret, hEq, _⟩
      rw [hWrite] at hEq
      cases hEq
  | vgicr =>
    rw [AnswersWrite, callWrite]
    by_cases hFrame : offset / gicrStride < w.nvcpu
    · obtain ⟨ret, b', hWrite, hRet⟩ := vgicrMmioWrite_frame h hj hOffset hFrame cpu val
      rw [hWrite]
      simp only [Except.ok.injEq, Prod.mk.injEq, hFrame, true_and]
      constructor
      · rintro ⟨b'', ret', ⟨rfl, rfl⟩, hPos⟩
        rwa [hRet] at hPos
      · intro hReg
        exact ⟨b', ret, ⟨rfl, rfl⟩, by rwa [hRet]⟩
    · rw [vgicrMmioWrite, h.gicrFrame_eq hj, gicrIdx_eq hOffset, if_neg hFrame, ok_bind]
      refine iff_of_false ?_ (fun hAnswers => hFrame hAnswers.1)
      rintro ⟨b', ret, hEq, hPos⟩
      cases hEq
      exact hPos (by decide)
  | virtio =>
    rw [AnswersWrite, ← virtioMmioWrite_returns n (b.backend w.vm) offset val, callWrite, h.vm j hj, deref, ok_bind]
    constructor
    · rintro ⟨b', ret, hRun, _⟩
      obtain ⟨s, hWrite, _⟩ := bind_eq_ok.mp hRun
      exact ⟨s, hWrite⟩
    · rintro ⟨s, hWrite⟩
      rw [hWrite]
      exact ⟨_, 0, rfl, by decide⟩

end

/-- A VM with its vcpus, its interrupt controller and its three windows, and nothing else. -/
structure Serviced (w : Wiring) (s : Hypervisor) : Prop where
  wired : Wired w s
  windows : ∃ gicr gicd virtio, Windows s w.vm gicr gicd virtio ∧ (s.mmio virtio).next = none
  unused : ∀ k, w.nvcpu ≤ k → k < vcpuMax → (s.vms w.vm).vcpus k = none

/-- The device answers the access that the syndrome describes. -/
def AbortAnswers (w : Wiring) (n : Nat) (b : Board) (vcpu esr far hpfar : Nat) : Prop :=
  issFnv (esrIss esr) = 0 ∧ ∃ handler, InWindow (windowOf handler) (faultIpa far hpfar) ∧
    if issWnr (esrIss esr) = 0 then AnswersRead w.nvcpu (faultIpa far hpfar - (windowOf handler).1) handler
    else AnswersWrite n b w.vm w.nvcpu (faultIpa far hpfar - (windowOf handler).1)
      (source b vcpu (issSrt (esrIss esr))) handler

/-- The call is CPU_ON for a vcpu of the VM, and firmware agrees. -/
def CallAnswers (w : Wiring) (fw : Nat) (x : Nat → Nat) : Prop :=
  x 0 % 2 ^ 32 = psciCpuOnSmc64 ∧ x 1 < w.nvcpu ∧ fw % 2 ^ 32 = 0

def Survives (w : Wiring) (n fw : Nat) (b : Board) (vcpu esr far hpfar : Nat) : Prop :=
  match getSyncTrapHandler esr with
  | none => False
  | some .wfxEmulate => True
  | some .hvc => CallAnswers w fw (b.x vcpu)
  | some .dataAbort => AbortAnswers w n b vcpu esr far hpfar

section
variable {w : Wiring} {b : Board} {j : Nat}

theorem Serviced.selects (h : Serviced w b.hv) (hj : j < w.nvcpu) {ipa : Nat}
    (hOut : ∀ handler, ¬InWindow (windowOf handler) ipa) : Selects b.hv (w.vcpu j) ipa none := by
  obtain ⟨gicr, gicd, virtio, hWindows, hNext⟩ := h.windows
  obtain ⟨next, hVirtio⟩ := hWindows.virtio
  rw [hVirtio] at hNext
  dsimp only at hNext
  subst hNext
  have hGicr := findMmio_window .vgicr ipa 63 hWindows.gicr
  have hGicd := findMmio_window .vgicd ipa 62 hWindows.gicd
  have hLast := findMmio_window .virtio ipa 61 hVirtio
  rw [if_neg (hOut _)] at hGicr hGicd hLast
  refine ⟨w.vm, h.wired.vm j hj, ?_⟩
  rw [hWindows.head]
  exact hGicr.trans (hGicd.trans hLast)

theorem mmioEmulate_answers (h : Serviced w b.hv) (hj : j < w.nvcpu) (n cpu t sas wnr ipa : Nat) :
    (∃ b' ret, mmioEmulate n b cpu (w.vcpu j) t ⟨ipa, sas, wnr⟩ = .ok (b', ret) ∧ ¬ret < 0) ↔
      ∃ handler, InWindow (windowOf handler) ipa ∧
        if wnr = 0 then AnswersRead w.nvcpu (ipa - (windowOf handler).1) handler
        else AnswersWrite n b w.vm w.nvcpu (ipa - (windowOf handler).1) (source b (w.vcpu j) t) handler := by
  by_cases hOut : ∀ handler, ¬InWindow (windowOf handler) ipa
  · refine iff_of_false ?_ (fun ⟨handler, hIn, _⟩ => hOut handler hIn)
    rintro ⟨b', ret, hRun, hPos⟩
    rw [mmioEmulate_selected (h.selects hj hOut)] at hRun
    cases hRun
    exact hPos (by decide)
  · obtain ⟨handler, hIn⟩ := not_forall_not.mp hOut
    -- the windows are apart, so the handler is the only one
    have hOnly : ∀ P : Handler → Prop, (∃ handler', InWindow (windowOf handler') ipa ∧ P handler') ↔
        P handler := by
      intro P
      constructor
      · rintro ⟨handler', hIn', hP⟩
        by_contra hNot
        have hNe : handler ≠ handler' := by
          rintro rfl
          exact hNot hP
        exact windows_apart hNe hIn hIn'
      · exact fun hP => ⟨handler, hIn, hP⟩
    rw [hOnly]
    obtain ⟨gicr, gicd, virtio, hWindows, _⟩ := h.windows
    have hHits := hWindows.hits (h.wired.vm j hj) hIn
    have hOffset : ipa - (windowOf handler).1 < (windowOf handler).2 := by
      rw [InWindow] at hIn
      omega
    by_cases hWnr : wnr = 0
    · subst hWnr
      rw [if_pos rfl, mmioEmulate_load hHits, ← callRead_answers h.wired hj handler hOffset
        (destination b (w.vcpu j) t)]
      constructor
      · rintro ⟨b', ret, hRun, hPos⟩
        obtain ⟨⟨ret', v⟩, hRead, hLast⟩ := bind_eq_ok.mp hRun
        cases hLast
        exact ⟨_, v, hRead, hPos⟩
      · rintro ⟨ret, v, hRead, hPos⟩
        rw [hRead]
        exact ⟨_, ret, rfl, hPos⟩
    · rw [if_neg hWnr, mmioEmulate_store hHits n cpu t sas hWnr]
      exact callWrite_answers h.wired hj handler hOffset n cpu _

theorem dataAbortHandler_answers (h : Serviced w b.hv) (hj : j < w.nvcpu) (n cpu esr far hpfar : Nat) :
    (∃ b', dataAbortHandler n b cpu (w.vcpu j) esr far hpfar = .ok (b', 0)) ↔
      AbortAnswers w n b (w.vcpu j) esr far hpfar := by
  rw [AbortAnswers, ← mmioEmulate_answers h hj n cpu _ (issSas (esrIss esr)), dataAbortHandler]
  dsimp only
  by_cases hFnv : issFnv (esrIss esr) = 0
  · rw [if_neg (not_not.mpr hFnv)]
    simp only [hFnv, true_and]
    constructor
    · rintro ⟨b', hRun⟩
      obtain ⟨⟨b₁, ret⟩, hEmulate, hRest⟩ := bind_eq_ok.mp hRun
      refine ⟨b₁, ret, hEmulate, ?_⟩
      intro hNeg
      dsimp only at hRest
      rw [if_pos hNeg] at hRest
      cases hRest
    · rintro ⟨b₁, ret, hEmulate, hPos⟩
      rw [hEmulate, ok_bind]
      dsimp only
      rw [if_neg hPos]
      exact ⟨_, rfl⟩
  · rw [if_pos hFnv]
    refine iff_of_false ?_ (fun hAnswers => hFnv hAnswers.1)
    rintro ⟨b', hEq⟩
    cases hEq

theorem and_low_word {m : Nat} (hm : m < 2 ^ 32) (n : Nat) : n &&& m = n % 2 ^ 32 &&& m := by
  have hLt : n &&& m < 2 ^ 32 := Nat.lt_of_le_of_lt Nat.and_le_right hm
  rw [← Nat.mod_eq_of_lt hLt, Nat.and_mod_two_pow, Nat.mod_eq_of_lt hm]

theorem psciCpuOn_answers (h : Serviced w b.hv) (hj : j < w.nvcpu) (fw x1 x2 : Nat) :
    (∃ b', psciCpuOn fw b (w.vcpu j) x1 x2 = .ok (b', fw)) ∧ x1 < w.nvcpu ∨
      (∀ r, psciCpuOn fw b (w.vcpu j) x1 x2 ≠ .ok r) ∧ ¬x1 < w.nvcpu := by
  by_cases hx : x1 < w.nvcpu
  · exact .inl ⟨⟨_, psciCpuOn_eq h.wired hj hx fw x2⟩, hx⟩
  · refine .inr ⟨?_, hx⟩
    intro r hRun
    rw [psciCpuOn, h.wired.vm j hj, deref, ok_bind] at hRun
    dsimp only at hRun
    split at hRun
    · rename_i hMax
      rw [h.unused x1 (Nat.le_of_not_lt hx) hMax] at hRun
      cases hRun
    · cases hRun

/-- The masks of the dispatch look at the low word, and let CPU_ON through of the functions that are implemented. -/
theorem hvcHandler_answers (h : Serviced w b.hv) (hj : j < w.nvcpu) (fw : Nat) :
    (∃ b' ret, hvcHandler fw b (w.vcpu j) = .ok (b', ret) ∧ ¬ret ≠ 0) ↔ CallAnswers w fw (b.x (w.vcpu j)) := by
  rw [hvcHandler, syscallHandler, CallAnswers, and_low_word (by decide)]
  by_cases hFid : b.x (w.vcpu j) 0 % 2 ^ 32 = psciCpuOnSmc64
  · have hPsci : isPsciFid (b.x (w.vcpu j) 0) := by
      rw [isPsciFid, and_low_word (m := 0xff000000) (by decide), and_low_word (m := 0xffe0) (by decide), hFid]
      decide
    rw [standardServiceCall, if_pos hPsci, psciHandler, hFid, if_pos (by decide), if_neg (by decide), if_pos rfl]
    obtain ⟨⟨b', hRun⟩, hx⟩ | ⟨hStops, hx⟩ := psciCpuOn_answers h hj fw (b.x (w.vcpu j) 1)
      (b.x (w.vcpu j) 2)
    · rw [hRun, ok_bind]
      simp only [hx, true_and]
      rw [← toInt32_eq_zero]
      constructor
      · rintro ⟨b'', ret, hEq, hRet⟩
        cases hEq
        exact not_not.mp hRet
      · intro hFw
        exact ⟨_, _, rfl, not_not.mpr hFw⟩
    · refine iff_of_false ?_ (fun hAnswers => hx hAnswers.2.1)
      rintro ⟨b', ret, hEq, _⟩
      obtain ⟨r, hRun, _⟩ := bind_eq_ok.mp hEq
      exact hStops r hRun
  · refine iff_of_false ?_ (fun hAnswers => hFid hAnswers.1)
    rintro ⟨b', ret, hEq, _⟩
    split at hEq
    swap
    · cases hEq
    rename_i hMask
    obtain ⟨r, hCall, _⟩ := bind_eq_ok.mp hEq
    have hOther : ∀ fid, fid &&& 0xffff0000 ≠ 0xc4000000 → b.x (w.vcpu j) 0 % 2 ^ 32 ≠ fid := by
      rintro fid hNe rfl
      exact hNe hMask
    rw [standardServiceCall] at hCall
    split at hCall
    swap
    · cases hCall
    rw [psciHandler, if_neg (hOther psciVersion (by decide)), if_neg hFid,
      if_neg (hOther psciFeatures (by decide))] at hCall
    cases hCall

theorem lowerElSyncHandler_returns_iff (h : Serviced w b.hv) (hj : j < w.nvcpu) (n fw cpu esr far hpfar : Nat) :
    (∃ b', lowerElSyncHandler n fw b cpu (w.vcpu j) esr far hpfar = .ok b') ↔
      Survives w n fw b (w.vcpu j) esr far hpfar := by
  rw [Survives]
  have hCall : ∀ handler, getSyncTrapHandler esr = some handler →
      ((∃ b', lowerElSyncHandler n fw b cpu (w.vcpu j) esr far hpfar = .ok b') ↔
        ∃ b' ret, callSyncTrapHandler n fw b cpu (w.vcpu j) esr far hpfar handler = .ok (b', ret) ∧
          ¬ret ≠ 0) := by
    intro handler hHandler
    rw [lowerElSyncHandler, hHandler]
    dsimp only
    constructor
    · rintro ⟨b', hRun⟩
      obtain ⟨⟨b₁, ret⟩, hCall, hRest⟩ := bind_eq_ok.mp hRun
      refine ⟨b₁, ret, hCall, ?_⟩
      intro hRet
      dsimp only at hRest
      rw [if_pos hRet] at hRest
      cases hRest
    · rintro ⟨b₁, ret, hCall, hRet⟩
      rw [hCall, ok_bind]
      dsimp only
      rw [if_neg hRet]
      exact ⟨b₁, rfl⟩
  cases hHandler : getSyncTrapHandler esr with
  | none =>
    rw [lowerElSyncHandler, hHandler]
    refine iff_of_false ?_ id
    rintro ⟨b', hEq⟩
    cases hEq
  | some handler =>
    rw [hCall handler hHandler]
    cases handler with
    | wfxEmulate => exact iff_of_true ⟨_, 0, rfl, by decide⟩ trivial
    | hvc => exact hvcHandler_answers h hj fw
    | dataAbort =>
      dsimp only
      rw [← dataAbortHandler_answers h hj n cpu]
      constructor
      · rintro ⟨b', ret, hRun, hRet⟩
        rw [not_not.mp hRet] at hRun
        exact ⟨b', hRun⟩
      · rintro ⟨b', hRun⟩
        exact ⟨b', 0, hRun, by decide⟩

end

section
variable {w : Wiring} {s s' s₀ : Hypervisor} {cfg : VmConfig} {i spis : Nat} {b b' : Board}

theorem Serviced.contained (h : Serviced w b.hv) (hContained : Contained w.vm spis b b') : Serviced w b'.hv := by
  have hVcpu : ∀ u, (b'.hv.vcpus u).vm = (b.hv.vcpus u).vm ∧ (b'.hv.vcpus u).cpuid = (b.hv.vcpus u).cpuid ∧
      (b'.hv.vcpus u).vgic = (b.hv.vcpus u).vgic := by
    intro u
    obtain ⟨pc, st, hEq, _⟩ := hContained.vcpus u
    rw [hEq]
    exact ⟨rfl, rfl, rfl⟩
  obtain ⟨gicr, gicd, virtio, hWindows, hNext⟩ := h.windows
  refine ⟨⟨?_, h.wired.nvcpu_le, ?_, ?_, ?_, ?_, ?_, h.wired.distinct⟩,
    ⟨gicr, gicd, virtio, ⟨?_, ?_, ?_, ?_⟩, ?_⟩, ?_⟩
  · rw [hContained.vms]
    exact h.wired.nvcpu
  · rw [hContained.vms]
    exact h.wired.vgic
  · rw [hContained.vms]
    exact h.wired.vcpus
  · exact fun k hk => (hVcpu _).1.trans (h.wired.vm k hk)
  · exact fun k hk => (hVcpu _).2.1.trans (h.wired.cpuid k hk)
  · exact fun k hk => (hVcpu _).2.2.trans (h.wired.vgicCpu k hk)
  · rw [hContained.vms]
    exact hWindows.head
  · rw [hContained.mmio]
    exact hWindows.gicr
  · rw [hContained.mmio]
    exact hWindows.gicd
  · rw [hContained.mmio]
    exact hWindows.virtio
  · rw [hContained.mmio]
    exact hNext
  · rw [hContained.vms]
    exact h.unused

theorem Serviced.serves (h : Serviced w s) {j : Nat} (hj : j < w.nvcpu) : Serves s (w.vcpu j) w.vm (w.spis s) :=
  serves_of_wired h.wired hj h.unused

end

/-! ## A new VM is serviced -/

section
variable {s s₀ s' : Hypervisor} {i : Nat} {nodes : List Nat}

/-- The regions of a VM, none of them free for another. -/
def Regions (s : Hypervisor) (i : Nat) (nodes : List Nat) : Prop :=
  Links (fun n => (s.mmio n).next) (s.vms i).mmioList nodes ∧ ∀ n ∈ nodes, (s.mmio n).size ≠ 0

theorem s2PtTrap_regions {ipa size : Nat} {handler : Handler} (h : Regions s i nodes) (hSize : size ≠ 0)
    (hTrap : s2PtTrap s i ipa size handler = .ok s') : ∃ n, Regions s' i (n :: nodes) := by
  obtain ⟨n, hFree, hMmio, hVm, _⟩ := s2PtTrap_registers hTrap
  have hSame : ∀ n' ∈ nodes, s'.mmio n' = s.mmio n' := by
    intro n' hn'
    have hNe : n' ≠ n := fun hEq => h.2 n' hn' (hEq ▸ hFree)
    rw [hMmio, Function.update_of_ne hNe]
  have hNew : s'.mmio n = ⟨(s.vms i).mmioList, ipa, size, some handler, some handler⟩ := by
    rw [hMmio, Function.update_self]
  refine ⟨n, ?_, ?_⟩
  · rw [hVm]
    exact h.1.push (by rw [hNew]) fun n' hn' => by rw [hSame n' hn']
  · intro n' hn'
    obtain rfl | hOld := List.mem_cons.mp hn'
    · rw [hNew]
      exact hSize
    · rw [hSame n' hOld]
      exact h.2 n' hOld

theorem windows_last {gicr gicd virtio n₁ n₂ n₃ : Nat} (h : Windows s i gicr gicd virtio)
    (hRegions : Regions s i [n₁, n₂, n₃]) : (s.mmio virtio).next = none := by
  have hLinks := hRegions.1
  rw [h.head] at hLinks
  cases hLinks with
  | cons hLinks =>
    rw [h.gicr] at hLinks
    cases hLinks with
    | cons hLinks =>
      rw [h.gicd] at hLinks
      cases hLinks with
      | cons hLinks =>
        cases hNext : (s.mmio virtio).next with
        | none => rfl
        | some _ =>
          rw [hNext] at hLinks
          cases hLinks

theorem addVcpu_record {n entrypoint : Nat} (hAdd : addVcpu s i n entrypoint = .ok s') :
    (s'.vms i).mmioList = (s.vms i).mmioList ∧ ∀ k, k ≠ n → (s'.vms i).vcpus k = (s.vms i).vcpus k := by
  have hVms : (newVcpu s i n entrypoint).1.vms = s.vms := by
    obtain hNone | ⟨s₁, _, hSome, hVms, _⟩ := newVcpu_spec s i n entrypoint
    · rw [hNone]
    · rw [hSome]
      exact hVms
  rw [addVcpu] at hAdd
  dsimp only at hAdd
  rw [hVms] at hAdd
  split at hAdd
  · cases hAdd
    rw [setVm_self]
    exact ⟨rfl, fun k hk => Function.update_of_ne hk _ _⟩
  · cases hAdd

theorem addVcpusLoop_record {n k : Nat} (hLoop : addVcpusLoop i n k s = .ok s') :
    (s'.vms i).mmioList = (s.vms i).mmioList ∧ ∀ k', k + n ≤ k' → (s'.vms i).vcpus k' = (s.vms i).vcpus k' := by
  induction n generalizing s k with
  | zero =>
    cases hLoop
    exact ⟨rfl, fun _ _ => rfl⟩
  | succ n ih =>
    obtain ⟨s₁, hAdd, hRest⟩ := bind_eq_ok.mp hLoop
    obtain ⟨hList, hEntries⟩ := addVcpu_record hAdd
    obtain ⟨hList', hEntries'⟩ := ih hRest
    refine ⟨hList'.trans hList, fun k' hk' => ?_⟩
    rw [hEntries' k' (by omega), hEntries k' (by omega)]

theorem setName_record {nvcpu : Int} {name : Option String} (h : setName s i nvcpu name = .ok s') :
    (s'.vms i).mmioList = (s.vms i).mmioList ∧ (s'.vms i).vcpus = (s.vms i).vcpus := by
  cases name with
  | none => cases h
  | some name =>
    rw [setName] at h
    split at h
    · cases h
      rw [setVm_self]
      exact ⟨rfl, rfl⟩
    · cases h

theorem vcpuReady_mmio {u : Nat} (h : vcpuReady s (some u) = .ok s') : s'.mmio = s.mmio := by
  cases h
  rfl

/-- A VM whose vcpus all got their records, and that had no region and no vcpu before. -/
theorem createVm_serviced {cfg : VmConfig} (hVm : allocvm s = some (s₀, i)) (hList : (s.vms i).mmioList = none)
    (hBlank : ∀ k, (s.vms i).vcpus k = none) (hRun : createVm s (some cfg) = .ok s') (hNvcpu : 1 ≤ cfg.nvcpu)
    (hFull : ∀ k : Nat, k < cfg.nvcpu → ∃ v g, (s'.vms i).vcpus k = some v ∧ (s'.vcpus v).vgic = some g) :
    Serviced (wiringOf s' i) s' := by
  obtain ⟨_, hSame, _, gicr, gicd, virtio, hWindows⟩ := createVm_staffed hVm hRun
  obtain ⟨c⟩ := createVm_creation hVm hRun
  obtain ⟨s₁, s₂, _, hVms₁, hMmio₁, _, _, _, hGicd, hGicr⟩ := newVgic_steps c.hVgic
  have hTaken : (s₀.vms i).mmioList = none ∧ ∀ k, (s₀.vms i).vcpus k = none := by
    rw [allocvm_taken hVm, setVm_self]
    exact ⟨hList, hBlank⟩
  obtain ⟨hNamed, hNamed'⟩ := setName_record c.hName
  obtain ⟨hFirst, hFirst'⟩ := addVcpu_record c.hFirst
  obtain ⟨hOthers, hOthers'⟩ := addVcpusLoop_record c.hOthers
  have hVms' : s'.vms i = { c.vgic.vms i with vgic := some c.g } := by
    rw [(vcpuReady_same c.hReady).1, setVm_self]
  refine ⟨createVm_wired hVm hRun (by omega) hFull, ⟨gicr, gicd, virtio, hWindows, ?_⟩, ?_⟩
  · have hEmpty : Regions ({ c.others with host := c.host }.setVm i
        { c.others.vms i with stage2Pt := c.others.host.allocPage.2 }) i [] := by
      refine ⟨?_, fun n hn => absurd hn List.not_mem_nil⟩
      rw [setVm_self]
      dsimp only
      rw [hOthers, hFirst, hNamed, hTaken.1]
      exact .nil
    obtain ⟨n₃, hVirtio⟩ := s2PtTrap_regions hEmpty (by decide) c.hVirtio
    have hAlloc : Regions s₁ i [n₃] := by
      rw [Regions, hVms₁, hMmio₁]
      exact hVirtio
    obtain ⟨n₂, hDist⟩ := s2PtTrap_regions hAlloc (by decide) hGicd
    obtain ⟨n₁, hRedist⟩ := s2PtTrap_regions hDist (by decide) hGicr
    have hMmio' := vcpuReady_mmio c.hReady
    have hAll : Regions s' i [n₁, n₂, n₃] := by
      rw [Regions, hVms', hMmio']
      exact hRedist
    exact windows_last hWindows hAll
  · intro k hk _
    have hLe : 1 + (cfg.nvcpu - 1).toNat ≤ k := by
      change (s'.vms i).nvcpu.toNat ≤ k at hk
      omega
    have hOf : (s'.vms i).vcpus = (c.others.vms i).vcpus := by
      rw [hVms']
      dsimp only
      rw [(s2PtTrap_sameStaff hGicr).entries, (s2PtTrap_sameStaff hGicd).entries, hVms₁,
        (s2PtTrap_sameStaff c.hVirtio).entries, setVm_self]
    change (s'.vms i).vcpus k = none
    rw [hOf, hOthers' k hLe, hFirst' k (by omega), hNamed', hTaken.2]

end

section
variable {w : Wiring} {b b' : Board}

/-- After any number of traps of the VM, the next one returns exactly if it is among those above. -/
theorem trap_survived_iff {es : List GuestTrap} {e : GuestTrap} (h : Serviced w b.hv)
    (hOwn : ∀ e ∈ es, ∃ j, j < w.nvcpu ∧ e.vcpu = w.vcpu j)
    (hPlain : ∀ e ∈ es, Plain b.hv e.vcpu e.esr e.far e.hpfar) (hRun : es.foldlM takeTrap b = .ok b') {j : Nat}
    (hj : j < w.nvcpu) (hVcpu : e.vcpu = w.vcpu j) :
    (∃ b'', takeTrap b' e = .ok b'') ↔ Survives w e.rounds e.firmware (atTrap b' e) e.vcpu e.esr e.far e.hpfar := by
  have hServes : ∀ e ∈ es, Serves b.hv e.vcpu w.vm (w.spis b.hv) := by
    intro e he
    obtain ⟨k, hk, hOf⟩ := hOwn e he
    exact hOf ▸ h.serves hk
  have hContained := (quiet_refl _ _ b).contained.traps hServes hPlain hRun
  have hAt : Contained w.vm (w.spis b.hv) b' (atTrap b' e) := by
    refine atTrap_contained ?_
    rw [hContained.vm, hVcpu]
    exact h.wired.vm j hj
  rw [takeTrap, hVcpu]
  exact lowerElSyncHandler_returns_iff ((h.contained hContained).contained hAt) hj _ _ _ _ _ _

end

theorem smallBoard_serviced : Serviced smallWiring smallBoard.hv :=
  ⟨smallBoard_wired, ⟨2, 1, 0, smallVm_windows,
    by rw [show smallBoard.hv = smallVm from rfl, smallVm_evaluated.2.2.2.2]⟩,
    smallBoard_unused⟩

/-- Vcpu 0 turns on vcpu `k`. -/
def onTrap (k : Nat) : GuestTrap :=
  ⟨0, 0, fun t => if t = 0 then psciCpuOnSmc64 else if t = 1 then k
    else 0x80000000, 0x80000040, 0x5a000000, 0, 0, 0, 0⟩

/-- After the traps of before, vcpu 1 can be turned on again, and vcpu 5 stops the hypervisor. -/
theorem trap_survived_iff_small : ∃ b', smallTraps.foldlM takeTrap smallBoard = .ok b' ∧
    (∃ b'', takeTrap b' (onTrap 1) = .ok b'') ∧ ¬∃ b'', takeTrap b' (onTrap 5) = .ok b'' := by
  have hReturns : returns (smallTraps.foldlM takeTrap smallBoard) (fun _ => true) = true := by
    decide +kernel
  obtain ⟨b', hRun, _⟩ := exists_of_returns hReturns
  have hOwn : ∀ e ∈ smallTraps, ∃ j, j < smallWiring.nvcpu ∧ e.vcpu = smallWiring.vcpu j := by
    have hVcpu : ∀ e ∈ smallTraps, e.vcpu < 2 := by decide
    exact fun e he => ⟨e.vcpu, hVcpu e he, rfl⟩
  have hTraps := fun k => trap_survived_iff (e := onTrap k) smallBoard_serviced hOwn smallTraps_plain hRun
    (j := 0) (by decide) rfl
  have hHvc : ∀ k, getSyncTrapHandler (onTrap k).esr = some .hvc :=
    fun _ => show getSyncTrapHandler 0x5a000000 = some .hvc by decide
  refine ⟨b', hRun, (hTraps 1).mpr ?_, fun hSurvives => ?_⟩
  · rw [Survives, hHvc, CallAnswers, atTrap_x]
    show _ ∧ _ ∧ _
    decide
  · have hCall := (hTraps 5).mp hSurvives
    rw [Survives, hHvc, CallAnswers, atTrap_x] at hCall
    exact absurd hCall.2.1 (by decide)

end HyperPoc.Trap
