import HyperPoc.Vgic.Redistributor
import HyperPoc.Vgic.Setup

/-! # Trapped loads

The read handlers put a 64-bit value into the transfer register, whatever the size of the access, or
leave the register alone. The value is clean if it fits into the size.
-/
namespace HyperPoc.Trap
open Library.Memory Library.Packing Library.Run Gic Vgic
set_option autoImplicit false

section
variable {w : Wiring} {b : Board} {j offset size old v : Nat} {ret : Int}

variable {handler : Handler}

end

/-- The read handler stores something into its destination when it succeeds. -/
def Assigns (offset : Nat) : Handler → Prop
  | .vgicd =>
    match gicdReg offset with
    | some (.ispendr _) | some (.icpendr _) | some (.isactiver _) | some (.icactiver _) => False
    | some (.icfgr _) | some (.irouter _) => False
    | none => False
    | some _ => True
  | .vgicr => True
  | .virtio => offset ≠ 0x40 ∧ offset ≠ 0x44 ∧ offset ≠ 0x60 ∧ offset ≠ 0x70

section
variable {b : Board} {vcpu offset old v : Nat} {ret : Int} {handler : Handler}

theorem vgicdMmioRead_of_assigns (hAssigns : Assigns offset .vgicd) (old' : Nat) :
    vgicdMmioRead b vcpu offset old' = vgicdMmioRead b vcpu offset old := by
  rw [Assigns] at hAssigns
  rw [vgicdMmioRead, vgicdMmioRead]
  cases hReg : gicdReg offset with
  | none =>
    rw [hReg] at hAssigns
    exact False.elim hAssigns
  | some reg =>
    rw [hReg] at hAssigns
    cases reg with
    | ispendr n | icpendr n | isactiver n | icactiver n | icfgr n | irouter n => exact False.elim hAssigns
    | _ => rfl

theorem vgicdMmioRead_of_not_assigns (hAssigns : ¬Assigns offset .vgicd)
    (hRead : vgicdMmioRead b vcpu offset old = .ok (ret, v)) (old' : Nat) :
    vgicdMmioRead b vcpu offset old' = .ok (ret, old') := by
  rw [Assigns] at hAssigns
  rw [vgicdMmioRead] at hRead ⊢
  obtain ⟨vm, hVm, hRead⟩ := bind_eq_ok.mp hRead
  rw [hVm, ok_bind]
  cases hReg : gicdReg offset with
  | none =>
    rw [hReg] at hRead
    cases hRead
    rfl
  | some reg =>
    rw [hReg] at hRead hAssigns
    cases reg with
    | ispendr n | icpendr n | isactiver n | icactiver n | icfgr n | irouter n =>
      cases hRead
      rfl
    | _ => exact False.elim (hAssigns trivial)

theorem vgicrMmioRead_of_ok (hRet : 0 ≤ ret) (hRead : vgicrMmioRead b vcpu offset old = .ok (ret, v)) (old' : Nat) :
    vgicrMmioRead b vcpu offset old' = .ok (ret, v) := by
  rw [vgicrMmioRead] at hRead ⊢
  obtain ⟨frame, hFrame, hRead⟩ := bind_eq_ok.mp hRead
  rw [hFrame, ok_bind]
  cases frame with
  | none =>
    cases hRead
    exact absurd hRet (by decide)
  | some frame =>
    dsimp only at hRead ⊢
    cases hReg : gicrReg (offset % gicrStride) with
    | none =>
      rw [hReg] at hRead
      cases hRead
      exact absurd hRet (by decide)
    | some reg =>
      rw [hReg] at hRead
      cases reg with
      | igrpmodr0 =>
        cases hRead
        exact absurd hRet (by decide)
      | _ => exact hRead

theorem virtioMmioRead_of_assigns (hAssigns : Assigns offset .virtio) (old' : Nat) :
    Virtio.virtioMmioRead offset old' = Virtio.virtioMmioRead offset old := by
  obtain ⟨h₁, h₂, h₃, h₄⟩ := hAssigns
  unfold Virtio.virtioMmioRead
  split <;> first | rfl | contradiction

theorem virtioMmioRead_of_not_assigns (hAssigns : ¬Assigns offset .virtio) (old' : Nat) :
    Virtio.virtioMmioRead offset old' = .ok old' := by
  rw [Assigns] at hAssigns
  obtain rfl | rfl | rfl | rfl : offset = 0x40 ∨ offset = 0x44 ∨ offset = 0x60 ∨ offset = 0x70 := by omega
  all_goals rfl

theorem callRead_of_assigns (hAssigns : Assigns offset handler) (hRet : 0 ≤ ret)
    (hRead : callRead b vcpu offset old handler = .ok (ret, v)) (old' : Nat) :
    callRead b vcpu offset old' handler = .ok (ret, v) := by
  cases handler with
  | vgicd => exact (vgicdMmioRead_of_assigns hAssigns old').trans hRead
  | vgicr => exact vgicrMmioRead_of_ok hRet hRead old'
  | virtio =>
    rw [callRead] at hRead ⊢
    rw [virtioMmioRead_of_assigns hAssigns old']
    exact hRead

theorem callRead_of_not_assigns (hAssigns : ¬Assigns offset handler)
    (hRead : callRead b vcpu offset old handler = .ok (ret, v)) (old' : Nat) :
    callRead b vcpu offset old' handler = .ok (ret, old') := by
  cases handler with
  | vgicd => exact vgicdMmioRead_of_not_assigns hAssigns hRead old'
  | vgicr => exact False.elim (hAssigns trivial)
  | virtio =>
    rw [callRead, virtioMmioRead_of_not_assigns hAssigns] at hRead ⊢
    cases hRead
    rfl

end

section
variable {b b' : Board} {vcpu esr far hpfar offset : Nat} {handler : Handler}

/-- A load that is handled: the pc moves on, and the result is where the read handler got its pointer. -/
theorem dataAbortHandler_load (hHits : Hits b.hv vcpu (faultIpa far hpfar) handler offset)
    (hFnv : issFnv (esrIss esr) = 0) (hWnr : issWnr (esrIss esr) = 0) (n cpu : Nat) {ret : Int} (hRet : 0 ≤ ret)
    {v : Nat} (hRead : callRead b vcpu offset (destination b vcpu (issSrt (esrIss esr))) handler = .ok (ret, v)) :
    dataAbortHandler n b cpu vcpu esr far hpfar =
      .ok (advancePc (setDestination b vcpu (issSrt (esrIss esr)) v) vcpu, 0) := by
  rw [dataAbortHandler, hFnv, hWnr, mmioEmulate_load hHits, hRead, ok_bind]
  exact if_neg (Int.not_lt.mpr hRet)

theorem load_of_dataAbortHandler (hHits : Hits b.hv vcpu (faultIpa far hpfar) handler offset)
    (hWnr : issWnr (esrIss esr) = 0) {n cpu : Nat} (hRun : dataAbortHandler n b cpu vcpu esr far hpfar = .ok (b', 0)) :
    issFnv (esrIss esr) = 0 ∧ ∃ (ret : Int) (v : Nat), 0 ≤ ret ∧
      callRead b vcpu offset (destination b vcpu (issSrt (esrIss esr))) handler = .ok (ret, v) ∧
      b' = advancePc (setDestination b vcpu (issSrt (esrIss esr)) v) vcpu := by
  rw [dataAbortHandler, hWnr, mmioEmulate_load hHits] at hRun
  split at hRun
  · cases hRun
  · rename_i hFnv
    obtain ⟨⟨b₁, r⟩, hEmulate, hRun⟩ := bind_eq_ok.mp hRun
    obtain ⟨⟨ret, v⟩, hRead, hPure⟩ := bind_eq_ok.mp hEmulate
    cases hPure
    dsimp only at hRun
    split at hRun
    · cases hRun
    · rename_i hRet
      cases hRun
      exact ⟨not_not.mp hFnv, r, v, Int.not_lt.mp hRet, hRead, rfl⟩

end

theorem callRead_setX (b : Board) (vcpu' t y vcpu offset val : Nat) (handler : Handler) :
    callRead (b.setX vcpu' t y) vcpu offset val handler = callRead b vcpu offset val handler := by
  cases handler <;> rfl

theorem x_advancePc (b : Board) (vcpu : Nat) : (advancePc b vcpu).x = b.x := rfl

section
variable {w : Wiring} {b b' : Board} {j n cpu esr far hpfar offset : Nat} {handler : Handler}

section
variable {vcpu : Nat} (hHits : Hits b.hv vcpu (faultIpa far hpfar) handler offset) (hWnr : issWnr (esrIss esr) = 0)
  (ht : issSrt (esrIss esr) < 31) (hRun : dataAbortHandler n b cpu vcpu esr far hpfar = .ok (b', 0))
include hHits hWnr ht hRun

theorem load_same_of_assigns (hAssigns : Assigns offset handler) (y : Nat) :
    dataAbortHandler n (b.setX vcpu (issSrt (esrIss esr)) y) cpu vcpu esr far hpfar = .ok (b', 0) := by
  obtain ⟨hFnv, ret, v, hRet, hRead, rfl⟩ := load_of_dataAbortHandler hHits hWnr hRun
  have hOther := callRead_of_assigns hAssigns hRet hRead
    (destination (b.setX vcpu (issSrt (esrIss esr)) y) vcpu (issSrt (esrIss esr)))
  rw [← callRead_setX b vcpu (issSrt (esrIss esr)) y] at hOther
  rw [dataAbortHandler_load (b := b.setX vcpu (issSrt (esrIss esr)) y) hHits hFnv hWnr n cpu hRet hOther,
    setDestination, if_neg (by omega), setX_setX, setDestination, if_neg (by omega)]

theorem load_keeps_register (hAssigns : ¬Assigns offset handler) (y : Nat) :
    ∃ b₂, dataAbortHandler n (b.setX vcpu (issSrt (esrIss esr)) y) cpu vcpu esr far hpfar = .ok (b₂, 0) ∧
      b₂.x vcpu (issSrt (esrIss esr)) = y := by
  obtain ⟨hFnv, ret, v, hRet, hRead, rfl⟩ := load_of_dataAbortHandler hHits hWnr hRun
  have hOther := callRead_of_not_assigns hAssigns hRead
    (destination (b.setX vcpu (issSrt (esrIss esr)) y) vcpu (issSrt (esrIss esr)))
  rw [← callRead_setX b vcpu (issSrt (esrIss esr)) y] at hOther
  refine ⟨_, dataAbortHandler_load (b := b.setX vcpu (issSrt (esrIss esr)) y) hHits hFnv hWnr n cpu hRet hOther, ?_⟩
  rw [x_advancePc, setDestination, if_neg (by omega), x_setX, if_pos ⟨rfl, rfl⟩, destination, if_neg (by omega),
    x_setX, if_pos ⟨rfl, rfl⟩]

end

/-- What a load leaves in its register does not depend on what was there exactly if the handler stores something; the
whole state is then the same. -/
theorem load_forgets_register_iff {vcpu : Nat} (hHits : Hits b.hv vcpu (faultIpa far hpfar) handler offset)
    (hWnr : issWnr (esrIss esr) = 0) (ht : issSrt (esrIss esr) < 31)
    (hRun : dataAbortHandler n b cpu vcpu esr far hpfar = .ok (b', 0)) :
    ((∀ y b₂, y < 2 ^ 64 →
      dataAbortHandler n (b.setX vcpu (issSrt (esrIss esr)) y) cpu vcpu esr far hpfar = .ok (b₂, 0) →
      b₂.x vcpu (issSrt (esrIss esr)) = b'.x vcpu (issSrt (esrIss esr))) ↔ Assigns offset handler) ∧
    (Assigns offset handler →
      ∀ y, dataAbortHandler n (b.setX vcpu (issSrt (esrIss esr)) y) cpu vcpu esr far hpfar = .ok (b', 0)) := by
  refine ⟨⟨fun hSame => ?_, fun hAssigns y b₂ _ hRun₂ => ?_⟩, load_same_of_assigns hHits hWnr ht hRun⟩
  · by_contra hAssigns
    obtain ⟨b₀, hRun₀, hZero⟩ := load_keeps_register hHits hWnr ht hRun hAssigns 0
    obtain ⟨b₁, hRun₁, hOne⟩ := load_keeps_register hHits hWnr ht hRun hAssigns 1
    have hFirst := hSame 0 b₀ (by decide) hRun₀
    have hSecond := hSame 1 b₁ (by decide) hRun₁
    omega
  · cases hRun₂.symm.trans (load_same_of_assigns hHits hWnr ht hRun hAssigns y)
    rfl

end

theorem load_forgets_register_small :
    ∃ b', dataAbortHandler 0 smallBoard 0 0 0x93800000 0x000 0xa0000 = .ok (b', 0) ∧
    dataAbortHandler 0 (smallBoard.setX 0 0 7) 0 0 0x93800000 0x000 0xa0000 = .ok (b', 0) := by
  have hHits := smallBoard_hits .virtio 0x00 (by decide) 0x000 0xa0000 (by decide)
  have hRun := dataAbortHandler_load (b := smallBoard) hHits (show issFnv (esrIss 0x93800000) = 0 by decide) (by decide)
    0 0 (le_refl 0) (v := 0x74726976) rfl
  obtain ⟨_, hSame⟩ := load_forgets_register_iff hHits (by decide) (by decide) hRun
  exact ⟨_, hRun, hSame ⟨by decide, by decide, by decide, by decide⟩ 7⟩

/-- The interrupt status of the disk reads as whatever the guest had in x0. -/
theorem load_leaks_register :
    ∃ b₁ b₂, dataAbortHandler 0 smallBoard 0 0 0x93800000 0x060 0xa0000 = .ok (b₁, 0) ∧
    dataAbortHandler 0 (smallBoard.setX 0 0 1) 0 0 0x93800000 0x060 0xa0000 = .ok (b₂, 0) ∧
    b₁.x 0 0 = 0 ∧ b₂.x 0 0 = 1 := by
  have hHits := smallBoard_hits .virtio 0x60 (by decide) 0x060 0xa0000 (by decide)
  have hRun (b : Board) (hHits : Hits b.hv 0 (faultIpa 0x060 0xa0000) .virtio 0x60) :=
    dataAbortHandler_load (b := b) hHits (show issFnv (esrIss 0x93800000) = 0 by decide) (by decide) 0 0 (le_refl 0)
      (v := b.x 0 0) rfl
  exact ⟨_, _, hRun smallBoard hHits, hRun (smallBoard.setX 0 0 1) hHits, rfl, rfl⟩

end HyperPoc.Trap
