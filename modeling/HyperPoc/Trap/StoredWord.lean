import HyperPoc.Vgic.Setup

/-! # Stores depend on the bits they store

Two runs of one word store whose source registers agree in the low word. The handlers of the interrupt
controller take single bits and bytes of that word; the one of the disk takes the whole register.
-/
namespace HyperPoc.Trap
open Library.Memory Library.Packing Library.Run Gic Vgic
set_option autoImplicit false

/-- The boards are the same but for the registers of the guests and `g_queue_sel`. -/
structure SameStored (b₁ b₂ : Board) : Prop where
  hv : b₁.hv = b₂.hv
  gic : b₁.gic = b₂.gic
  spiNum : b₁.spiNum = b₂.spiNum
  virtio : b₁.virtio = { b₂.virtio with queueSel := b₁.virtio.queueSel }

section
variable {b₁ b₂ : Board} {v₁ v₂ : Nat}

theorem testBit_of_word (hWord : v₁ % 2 ^ 32 = v₂ % 2 ^ 32) {i : Nat} (hi : i < 32) :
    v₁.testBit i = v₂.testBit i := by
  have hBit (v : Nat) : v.testBit i = (v % 2 ^ 32).testBit i := by
    rw [Nat.testBit_mod_two_pow, decide_eq_true hi, Bool.true_and]
  rw [hBit v₁, hWord, ← hBit v₂]

theorem byte_of_word (hWord : v₁ % 2 ^ 32 = v₂ % 2 ^ 32) {i : Nat} (hi : i < 4) :
    v₁ >>> (i * 8) &&& 0xff = v₂ >>> (i * 8) &&& 0xff := by
  rw [shift_byte, shift_byte]
  obtain rfl | rfl | rfl | rfl : i = 0 ∨ i = 1 ∨ i = 2 ∨ i = 3 := by omega
  all_goals omega

theorem SameStored.setHv (h : SameStored b₁ b₂) (s : Hypervisor) :
    SameStored { b₁ with hv := s } { b₂ with hv := s } :=
  ⟨rfl, h.gic, h.spiNum, h.virtio⟩

theorem SameStored.setGic (h : SameStored b₁ b₂) (g : PhysGic) :
    SameStored { b₁ with gic := g } { b₂ with gic := g } :=
  ⟨h.hv, rfl, h.spiNum, h.virtio⟩

theorem SameStored.writeIrq (h : SameStored b₁ b₂) (r : IrqRef) (a : IrqWrite) :
    SameStored (b₁.writeIrq r a) (b₂.writeIrq r a) := by
  rw [Board.writeIrq, Board.writeIrq, h.hv]
  exact h.setHv _

theorem writeLoop_agree (h : SameStored b₁ b₂) (n vcpu : Nat) (intid : Int)
    {body₁ body₂ : Board → Nat → Option IrqRef → Outcome Board}
    (hBody : ∀ i irq b₁ b₂, i < n → SameStored b₁ b₂ →
      Agree SameStored (body₁ b₁ i irq) (body₂ b₂ i irq)) :
    Agree SameStored (writeLoop n vcpu intid body₁ b₁) (writeLoop n vcpu intid body₂ b₂) := by
  refine Agree.foldlM _ ?_ h
  intro i hi c₁ c₂ hSame
  rw [hSame.hv]
  exact agree_self _ fun irq => hBody i irq c₁ c₂ (List.mem_range.mp hi) hSame

theorem vgicIrqEnable_agree (h : SameStored b₁ b₂) (cpu : Nat) (intid : Int) :
    Agree SameStored (vgicIrqEnable b₁ cpu intid) (vgicIrqEnable b₂ cpu intid) := by
  rw [vgicIrqEnable, vgicIrqEnable, h.gic]
  split
  · exact .ok (h.setGic _)
  · exact .error _

theorem vgicIrqDisable_agree (h : SameStored b₁ b₂) (cpu : Nat) (intid : Int) :
    Agree SameStored (vgicIrqDisable b₁ cpu intid) (vgicIrqDisable b₂ cpu intid) := by
  rw [vgicIrqDisable, vgicIrqDisable, h.gic]
  split
  · exact .ok (h.setGic _)
  · exact .error _

theorem writeEnables_agree (h : SameStored b₁ b₂) (hWord : v₁ % 2 ^ 32 = v₂ % 2 ^ 32) (cpu vcpu : Nat)
    (intid : Int) (on : Bool) :
    Agree SameStored (writeEnables b₁ cpu vcpu intid v₁ on) (writeEnables b₂ cpu vcpu intid v₂ on) := by
  apply writeLoop_agree h
  intro i irq c₁ c₂ hi hSame
  rw [testBit_of_word hWord hi]
  split
  · apply agree_self
    intro r
    split
    · exact vgicIrqEnable_agree (hSame.writeIrq r _) cpu _
    · exact vgicIrqDisable_agree (hSame.writeIrq r _) cpu _
  · exact .ok hSame

theorem writePriorities_agree (h : SameStored b₁ b₂) (hWord : v₁ % 2 ^ 32 = v₂ % 2 ^ 32) (vcpu : Nat)
    (intid : Int) :
    Agree SameStored (writePriorities b₁ vcpu intid v₁) (writePriorities b₂ vcpu intid v₂) := by
  apply writeLoop_agree h
  intro i irq c₁ c₂ hi hSame
  rw [byte_of_word hWord hi]
  exact agree_self _ fun r => .ok (hSame.writeIrq r _)

theorem writeTargets_agree (h : SameStored b₁ b₂) (hWord : v₁ % 2 ^ 32 = v₂ % 2 ^ 32) (cpu vcpu : Nat)
    (intid : Int) :
    Agree SameStored (writeTargets b₁ cpu vcpu intid v₁) (writeTargets b₂ cpu vcpu intid v₂) := by
  apply writeLoop_agree h
  intro i irq c₁ c₂ hi hSame
  rw [byte_of_word hWord hi]
  apply agree_self
  intro r
  have hNext := hSame.writeIrq r (.target (v₂ >>> (i * 8) &&& 0xff))
  dsimp only
  rw [hNext.gic, hNext.spiNum]
  split
  · exact .ok ⟨hNext.hv, rfl, rfl, hNext.virtio⟩
  · exact .error _

/-- Two results of a write handler. -/
def SameResult (r₁ r₂ : Board × Int) : Prop := SameStored r₁.1 r₂.1 ∧ r₁.2 = r₂.2

/-- A loop of a handler that then returns 0. -/
theorem agree_zero {x y : Outcome Board} (h : Agree SameStored x y) :
    Agree SameResult (x >>= fun b => pure (b, 0)) (y >>= fun b => pure (b, 0)) :=
  h.bind fun _ _ hSame => .ok ⟨hSame, rfl⟩

theorem vgicdMmioWrite_agree (h : SameStored b₁ b₂) (hWord : v₁ % 2 ^ 32 = v₂ % 2 ^ 32)
    (cpu vcpu offset : Nat) :
    Agree SameResult (vgicdMmioWrite b₁ cpu vcpu offset v₁) (vgicdMmioWrite b₂ cpu vcpu offset v₂) := by
  rw [vgicdMmioWrite, vgicdMmioWrite, h.hv]
  apply agree_self
  intro vm
  cases gicdReg offset with
  | none => exact .ok ⟨h, rfl⟩
  | some reg =>
    cases reg with
    | ctlr =>
      dsimp only
      rw [testBit_of_word hWord (by decide)]
      exact agree_self _ fun v => .ok ⟨h.setHv _, rfl⟩
    | isenabler n | icenabler n => exact agree_zero (writeEnables_agree h hWord cpu vcpu _ _)
    | ipriorityr n => exact agree_zero (writePriorities_agree h hWord vcpu _)
    | itargetsr n => exact agree_zero (writeTargets_agree h hWord cpu vcpu _)
    | irouter n =>
      dsimp only
      rw [h.gic, h.spiNum, show v₁ % 256 = v₂ % 256 from by omega]
      exact .ok ⟨⟨rfl, rfl, rfl, h.virtio⟩, rfl⟩
    | _ => exact .ok ⟨h, rfl⟩

theorem vgicrMmioWrite_agree (h : SameStored b₁ b₂) (hWord : v₁ % 2 ^ 32 = v₂ % 2 ^ 32)
    (cpu vcpu offset : Nat) :
    Agree SameResult (vgicrMmioWrite b₁ cpu vcpu offset v₁) (vgicrMmioWrite b₂ cpu vcpu offset v₂) := by
  rw [vgicrMmioWrite, vgicrMmioWrite, h.hv]
  apply agree_self
  intro frame
  cases frame with
  | none => exact .ok ⟨h, rfl⟩
  | some frame =>
    cases hReg : gicrReg (offset % gicrStride) with
    | none => exact .ok ⟨h, rfl⟩
    | some reg =>
      cases reg with
      | isenabler0 | icenabler0 => exact agree_self _ fun vcpu => agree_zero (writeEnables_agree h hWord cpu vcpu _ _)
      | ipriorityr => exact agree_self _ fun vcpu => agree_zero (writePriorities_agree h hWord vcpu _)
      | _ => exact .ok ⟨h, rfl⟩

end

section
variable {b : Board} {vcpu t y offset : Nat} {handler : Handler}

theorem sameStored_setX (b : Board) (vcpu t y : Nat) : SameStored b (b.setX vcpu t y) := ⟨rfl, rfl, rfl, rfl⟩

theorem virtioMmioWrite_agree (hReg : offset ≠ 0x28 ∧ offset ≠ 0x38 ∧ offset ≠ 0x40) (n : Nat)
    (s : Virtio.Backend) (v₁ v₂ : Nat) :
    Agree (fun s₁ s₂ => s₁ = { s₂ with queueSel := s₁.queueSel }) (Virtio.virtioMmioWrite n s offset v₁)
      (Virtio.virtioMmioWrite n s offset v₂) := by
  obtain ⟨h₁, h₂, h₃⟩ := hReg
  unfold Virtio.virtioMmioWrite
  split
  -- the page size, the size of the queue and its page take all 64 bits
  case h_2 | h_4 | h_6 => contradiction
  case h_3 => exact .ok rfl
  all_goals
    apply agree_refl
    intro _
    rfl

theorem callWrite_agree (hWord : y % 2 ^ 32 = b.x vcpu t % 2 ^ 32) (hHandler : handler ≠ .virtio) (n cpu : Nat) :
    Agree SameResult (callWrite n b cpu vcpu offset (source b vcpu t) handler)
      (callWrite n (b.setX vcpu t y) cpu vcpu offset (source (b.setX vcpu t y) vcpu t) handler) := by
  have hSource : source b vcpu t % 2 ^ 32 = source (b.setX vcpu t y) vcpu t % 2 ^ 32 := by
    rw [source, source]
    split
    · rfl
    · rw [x_setX, if_pos ⟨rfl, rfl⟩, hWord]
  cases handler with
  | vgicd => exact vgicdMmioWrite_agree (sameStored_setX b vcpu t y) hSource cpu vcpu offset
  | vgicr => exact vgicrMmioWrite_agree (sameStored_setX b vcpu t y) hSource cpu vcpu offset
  | virtio => exact absurd rfl hHandler

theorem dataAbortHandler_store {esr far hpfar : Nat} (hHits : Hits b.hv vcpu (faultIpa far hpfar) handler offset)
    (hFnv : issFnv (esrIss esr) = 0) (hWnr : issWnr (esrIss esr) ≠ 0) (n cpu : Nat) :
    dataAbortHandler n b cpu vcpu esr far hpfar = (do
      let (b, ret) ← callWrite n b cpu vcpu offset (source b vcpu (issSrt (esrIss esr))) handler
      if ret < 0 then return (b, -1)
      else return (advancePc b vcpu, 0)) := by
  rw [dataAbortHandler, hFnv, mmioEmulate_store hHits n cpu _ _ hWnr]
  rfl

/-- Values that a register of the disk takes for the same. -/
def SameTaken (offset v₁ v₂ : Nat) : Prop :=
  (offset = 0x28 → v₁ = v₂ ∨ v₁ ≠ pageSize ∧ v₂ ≠ pageSize) ∧ (offset = 0x38 → v₁ = v₂) ∧
    (offset = 0x40 → v₁ % 2 ^ 52 = v₂ % 2 ^ 52)

instance (offset v₁ v₂ : Nat) : Decidable (SameTaken offset v₁ v₂) :=
  inferInstanceAs (Decidable (_ ∧ _ ∧ _))

theorem vqRingInit_returns (s : Virtio.Backend) (ipa : Nat) :
    ∃ s', Virtio.vqRingInit s ipa = .ok s' ∧ s'.vq.vringIpa = ipa := by
  obtain ⟨pa, hPa⟩ := ipa2pa_returns s.host s.stage2Pt ipa
  rw [Virtio.vqRingInit, Virtio.virtioGuestToHost, hPa]
  exact ⟨_, rfl, rfl⟩

theorem virtioMmioWrite_taken {v₁ v₂ : Nat} (h : SameTaken offset v₁ v₂) (n : Nat) (s : Virtio.Backend) :
    Agree (fun s₁ s₂ => s₁ = { s₂ with queueSel := s₁.queueSel }) (Virtio.virtioMmioWrite n s offset v₁)
      (Virtio.virtioMmioWrite n s offset v₂) := by
  obtain ⟨hSize, hNum, hPfn⟩ := h
  have hSelf : ∀ x : Outcome Virtio.Backend,
      Agree (fun s₁ s₂ => s₁ = { s₂ with queueSel := s₁.queueSel }) x x := by
    intro x
    apply agree_refl
    intro _
    rfl
  by_cases hOthers : offset ≠ 0x28 ∧ offset ≠ 0x38 ∧ offset ≠ 0x40
  · exact virtioMmioWrite_agree hOthers n s v₁ v₂
  obtain rfl | rfl | rfl : offset = 0x28 ∨ offset = 0x38 ∨ offset = 0x40 := by omega
  · obtain rfl | ⟨h₁, h₂⟩ := hSize rfl
    · exact hSelf _
    · rw [Virtio.virtioMmioWrite, Virtio.virtioMmioWrite, if_pos h₁, if_pos h₂]
      exact .error _
  · rw [hNum rfl]
    exact hSelf _
  · have hIpa : u64 (v₁ <<< 12) = u64 (v₂ <<< 12) := by
      have hLow := hPfn rfl
      rw [u64, u64, Nat.shiftLeft_eq, Nat.shiftLeft_eq]
      omega
    rw [Virtio.virtioMmioWrite, Virtio.virtioMmioWrite, hIpa]
    exact hSelf _

/-- What an emulated store to the disk does, once its handler has run. -/
def afterDisk (b : Board) (vcpu : Nat) (s : Virtio.Backend) : Outcome (Board × Int) :=
  .ok (advancePc (b.setBackend s) vcpu, 0)

theorem dataAbortHandler_disk {esr far hpfar vm : Nat} (hVm : (b.hv.vcpus vcpu).vm = some vm)
    (hHits : Hits b.hv vcpu (faultIpa far hpfar) .virtio offset) (hFnv : issFnv (esrIss esr) = 0)
    (hWnr : issWnr (esrIss esr) ≠ 0) (n cpu : Nat) : dataAbortHandler n b cpu vcpu esr far hpfar =
      Virtio.virtioMmioWrite n (b.backend vm) offset (source b vcpu (issSrt (esrIss esr))) >>= afterDisk b vcpu := by
  rw [dataAbortHandler_store hHits hFnv hWnr, callWrite, hVm, deref, ok_bind]
  cases Virtio.virtioMmioWrite n (b.backend vm) offset (source b vcpu (issSrt (esrIss esr))) with
  | error e => rfl
  | ok s => rfl

/-- Stores to the disk whose results agree have both been refused, or have left the same queue. -/
theorem agree_afterDisk {b₁ b₂ : Board} {x y : Outcome Virtio.Backend}
    (h : Agree SameResult (x >>= afterDisk b₁ vcpu) (y >>= afterDisk b₂ vcpu)) :
    (∃ e, x = .error e ∧ y = .error e) ∨ ∃ s₁ s₂, x = .ok s₁ ∧ y = .ok s₂ ∧ s₁.vq = s₂.vq := by
  cases x with
  | error e =>
    cases y with
    | error e' =>
      cases h
      exact .inl ⟨e, rfl, rfl⟩
    | ok s₂ => cases h
  | ok s₁ =>
    cases y with
    | error e' => cases h
    | ok s₂ =>
      refine .inr ⟨s₁, s₂, rfl, rfl, ?_⟩
      cases h with
      | ok hSame => exact congrArg Virtio.Statics.vq hSame.1.virtio

theorem taken_of_agree {b₁ b₂ : Board} {v₁ v₂ n : Nat} {s : Virtio.Backend}
    (h : Agree SameResult (Virtio.virtioMmioWrite n s offset v₁ >>= afterDisk b₁ vcpu)
      (Virtio.virtioMmioWrite n s offset v₂ >>= afterDisk b₂ vcpu)) : SameTaken offset v₁ v₂ := by
  have hCases := agree_afterDisk h
  refine ⟨?_, ?_, ?_⟩
  · rintro rfl
    by_cases h₁ : v₁ ≠ pageSize
    · by_cases h₂ : v₂ ≠ pageSize
      · exact .inr ⟨h₁, h₂⟩
      · rw [Virtio.virtioMmioWrite, Virtio.virtioMmioWrite, if_pos h₁, if_neg h₂] at hCases
        obtain ⟨e, _, hEq⟩ | ⟨s₁, s₂, hEq, _⟩ := hCases
        · cases hEq
        · cases hEq
    · by_cases h₂ : v₂ ≠ pageSize
      · rw [Virtio.virtioMmioWrite, Virtio.virtioMmioWrite, if_neg h₁, if_pos h₂] at hCases
        obtain ⟨e, hEq, _⟩ | ⟨s₁, s₂, _, hEq, _⟩ := hCases
        · cases hEq
        · cases hEq
      · exact .inl (by omega)
  · rintro rfl
    obtain ⟨e, hEq, _⟩ | ⟨s₁, s₂, hEq₁, hEq₂, hVq⟩ := hCases
    · cases hEq
    · cases hEq₁
      cases hEq₂
      exact congrArg Virtio.VirtQueue.vringNum hVq
  · rintro rfl
    obtain ⟨r₁, hRing₁, hIpa₁⟩ := vqRingInit_returns s (u64 (v₁ <<< 12))
    obtain ⟨r₂, hRing₂, hIpa₂⟩ := vqRingInit_returns s (u64 (v₂ <<< 12))
    rw [Virtio.virtioMmioWrite, Virtio.virtioMmioWrite, hRing₁, hRing₂] at hCases
    obtain ⟨e, hEq, _⟩ | ⟨s₁, s₂, hEq₁, hEq₂, hVq⟩ := hCases
    · cases hEq
    · cases hEq₁
      cases hEq₂
      rw [hVq, hIpa₂, u64, u64, Nat.shiftLeft_eq, Nat.shiftLeft_eq] at hIpa₁
      omega

/-- Two stores whose registers agree in the low word do the same exactly if the disk, should it be its register,
takes the registers for the same. -/
theorem store_depends_on_word_iff {n cpu esr far hpfar : Nat}
    (hHits : Hits b.hv vcpu (faultIpa far hpfar) handler offset) (hWnr : issWnr (esrIss esr) ≠ 0)
    (hWord : y % 2 ^ 32 = b.x vcpu (issSrt (esrIss esr)) % 2 ^ 32) :
    Agree SameResult (dataAbortHandler n b cpu vcpu esr far hpfar)
        (dataAbortHandler n (b.setX vcpu (issSrt (esrIss esr)) y) cpu vcpu esr far hpfar) ↔
      (issFnv (esrIss esr) = 0 → handler = .virtio → SameTaken offset (source b vcpu (issSrt (esrIss esr)))
        (source (b.setX vcpu (issSrt (esrIss esr)) y) vcpu (issSrt (esrIss esr)))) := by
  by_cases hFnv : issFnv (esrIss esr) = 0
  swap
  · rw [dataAbortHandler, dataAbortHandler, if_pos hFnv, if_pos hFnv]
    exact iff_of_true (.ok ⟨sameStored_setX b vcpu _ y, rfl⟩) fun hZero => absurd hZero hFnv
  have hHits' : Hits (b.setX vcpu (issSrt (esrIss esr)) y).hv vcpu (faultIpa far hpfar) handler offset := hHits
  obtain rfl | hOther := eq_or_ne handler .virtio
  · obtain ⟨vm, _, hVm, _⟩ := id hHits
    have hVm' : ((b.setX vcpu (issSrt (esrIss esr)) y).hv.vcpus vcpu).vm = some vm := hVm
    rw [dataAbortHandler_disk hVm hHits hFnv hWnr, dataAbortHandler_disk hVm' hHits' hFnv hWnr]
    constructor
    · exact fun hAgree _ _ => taken_of_agree hAgree
    · intro hTaken
      apply (virtioMmioWrite_taken (hTaken hFnv rfl) n (b.backend vm)).bind
      intro s₁ s₂ hSame
      rw [hSame]
      exact .ok ⟨⟨rfl, rfl, rfl, rfl⟩, rfl⟩
  · rw [dataAbortHandler_store hHits hFnv hWnr, dataAbortHandler_store hHits' hFnv hWnr]
    refine iff_of_true ?_ fun _ hEq => absurd hEq hOther
    apply (callWrite_agree hWord hOther n cpu).bind
    rintro ⟨b₁, r₁⟩ ⟨b₂, r₂⟩ ⟨hSame, hRet⟩
    dsimp only at hSame hRet ⊢
    rw [hRet]
    split
    · exact .ok ⟨hSame, rfl⟩
    · rw [advancePc, advancePc, Board.setElr, Board.setElr, hSame.hv]
      exact .ok ⟨hSame.setHv _, rfl⟩

end

/-- A word store to a priority register with rubbish in the upper half, and two that give the disk a wrong page size. -/
theorem store_depends_on_word_small :
    Agree SameResult (dataAbortHandler 0 (smallBoard.setX 0 1 0x80808080) 0 0 0x93810040 0x420 0x80000)
      (dataAbortHandler 0 ((smallBoard.setX 0 1 0x80808080).setX 0 1 0xffffffff80808080)
        0 0 0x93810040 0x420 0x80000) ∧
    Agree SameResult (dataAbortHandler 0 (smallBoard.setX 0 1 8) 0 0 0x93810040 0x028 0xa0000)
      (dataAbortHandler 0 ((smallBoard.setX 0 1 8).setX 0 1 0x100000008) 0 0 0x93810040 0x028 0xa0000) := by
  have hPriority : Hits (smallBoard.setX 0 1 0x80808080).hv 0 (faultIpa 0x420 0x80000) .vgicd 0x420 :=
    smallBoard_hits .vgicd 0x420 (by decide) 0x420 0x80000 (by decide)
  have hPageSize : Hits (smallBoard.setX 0 1 8).hv 0 (faultIpa 0x028 0xa0000) .virtio 0x28 :=
    smallBoard_hits .virtio 0x28 (by decide) 0x028 0xa0000 (by decide)
  refine ⟨(store_depends_on_word_iff hPriority (by decide) (by decide)).mpr fun _ hEq => (by cases hEq),
    (store_depends_on_word_iff hPageSize (by decide) (by decide)).mpr fun _ _ => ?_⟩
  change SameTaken 0x28 8 0x100000008
  decide

theorem callWrite_small_virtio (t y offset val : Nat) : callWrite 0 (smallBoard.setX 0 t y) 0 0 offset val .virtio = (do
    let s ← Virtio.virtioMmioWrite 0 (smallBoard.backend 0) offset val
    return ((smallBoard.setX 0 t y).setBackend s, 0)) := by
  have hVm : ((smallBoard.setX 0 t y).hv.vcpus 0).vm = some 0 := smallBoard_wired.vm 0 (by decide)
  rw [callWrite, hVm, deref, ok_bind]
  rfl

/-- Vcpu 0 stores x1 = `y` to VIRTIO_MMIO_QUEUE_NUM. -/
theorem small_queueNum (y : Nat) : dataAbortHandler 0 (smallBoard.setX 0 1 y) 0 0 0x93810040 0x038 0xa0000 =
    .ok (advancePc ((smallBoard.setX 0 1 y).setBackend
      { smallBoard.backend 0 with vq := { smallBoard.virtio.vq with vringNum := y } }) 0, 0) := by
  have hHits := smallBoard_hits .virtio 0x38 (by decide) 0x038 0xa0000 (by decide)
  rw [dataAbortHandler_store (b := smallBoard.setX 0 1 y) hHits (by decide) (by decide), callWrite_small_virtio]
  rfl

/-- Vcpu 0 stores x1 = `y` to VIRTIO_MMIO_GUEST_PAGE_SIZE. -/
theorem small_guestPageSize (y : Nat) : dataAbortHandler 0 (smallBoard.setX 0 1 y) 0 0 0x93810040 0x028 0xa0000 =
    if y ≠ pageSize then .error (.panic "[virtio_mmio_write]: invalid page size(%p)\n")
    else .ok (advancePc ((smallBoard.setX 0 1 y).setBackend { smallBoard.backend 0 with guestPagesz := y }) 0, 0) := by
  have hHits := smallBoard_hits .virtio 0x28 (by decide) 0x028 0xa0000 (by decide)
  have hSource : source (smallBoard.setX 0 1 y) 0 (issSrt (esrIss 0x93810040)) = y := rfl
  rw [dataAbortHandler_store (b := smallBoard.setX 0 1 y) hHits (by decide) (by decide), callWrite_small_virtio,
    hSource, Virtio.virtioMmioWrite]
  split
  · rfl
  · rfl

/-- Vcpu 0 stores x1 = `y` to VIRTIO_MMIO_QUEUE_PFN. -/
theorem small_queuePfn (y : Nat) :
    ∃ b', dataAbortHandler 0 (smallBoard.setX 0 1 y) 0 0 0x93810040 0x040 0xa0000 = .ok (b', 0) ∧
    b'.virtio.vq.vringIpa = u64 (y <<< 12) := by
  have hHits := smallBoard_hits .virtio 0x40 (by decide) 0x040 0xa0000 (by decide)
  obtain ⟨s, hRing, hIpa⟩ := vqRingInit_returns (smallBoard.backend 0) (u64 (y <<< 12))
  have hSource : source (smallBoard.setX 0 1 y) 0 (issSrt (esrIss 0x93810040)) = y := rfl
  rw [dataAbortHandler_store (b := smallBoard.setX 0 1 y) hHits (by decide) (by decide), callWrite_small_virtio,
    hSource, Virtio.virtioMmioWrite, hRing]
  exact ⟨_, rfl, hIpa⟩

/-- The size of the queue becomes 8 or 4294967304, the size of pages is accepted or not, and the ring is at one
address of the guest or another. -/
theorem store_depends_on_upper_half :
    (∃ b₁ b₂, dataAbortHandler 0 (smallBoard.setX 0 1 8) 0 0 0x93810040 0x038 0xa0000 = .ok (b₁, 0) ∧
      dataAbortHandler 0 (smallBoard.setX 0 1 0x100000008) 0 0 0x93810040 0x038 0xa0000 = .ok (b₂, 0) ∧
      b₁.virtio.vq.vringNum = 8 ∧ b₂.virtio.vq.vringNum = 0x100000008) ∧
    ((∃ b', dataAbortHandler 0 (smallBoard.setX 0 1 4096) 0 0 0x93810040 0x028 0xa0000 = .ok (b', 0)) ∧
      dataAbortHandler 0 (smallBoard.setX 0 1 0x100001000) 0 0 0x93810040 0x028 0xa0000 =
        .error (.panic "[virtio_mmio_write]: invalid page size(%p)\n")) ∧
    ∃ b₁ b₂, dataAbortHandler 0 (smallBoard.setX 0 1 0x80000) 0 0 0x93810040 0x040 0xa0000 = .ok (b₁, 0) ∧
      dataAbortHandler 0 (smallBoard.setX 0 1 0x100080000) 0 0 0x93810040 0x040 0xa0000 = .ok (b₂, 0) ∧
      b₁.virtio.vq.vringIpa = 0x80000000 ∧ b₂.virtio.vq.vringIpa = 0x100080000000 := by
  have hAccepted := (small_guestPageSize 4096).trans (if_neg (by decide))
  have hRefused := (small_guestPageSize 0x100001000).trans (if_pos (by decide))
  obtain ⟨b₁, hPfn₁, hIpa₁⟩ := small_queuePfn 0x80000
  obtain ⟨b₂, hPfn₂, hIpa₂⟩ := small_queuePfn 0x100080000
  exact ⟨⟨_, _, small_queueNum 8, small_queueNum 0x100000008, rfl, rfl⟩, ⟨⟨_, hAccepted⟩, hRefused⟩,
    b₁, b₂, hPfn₁, hPfn₂, hIpa₁, hIpa₂⟩

end HyperPoc.Trap
