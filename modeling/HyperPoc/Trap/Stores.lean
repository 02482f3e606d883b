import HyperPoc.Gic.Retarget
import HyperPoc.Vgic.Loops
import HyperPoc.Vgic.Setup

/-! # Trapped stores

The write handlers get the whole source register, whatever the size of the access, and take an offset
inside a register for the register. A store should change what lies at the bytes it covers.
-/
namespace HyperPoc.Trap
open Library.Memory Library.Packing Library.RegisterFile Library.Run Gic Vgic
set_option autoImplicit false

/-- The configuration in the distributor's window that is not as before lies at bytes in `P`: the
priority of INTID `m` at `0x400 + m`, its targets at `0x800 + m`, its enable bit in two registers, and
the words that route the physical interrupts where they are. -/
structure ChangesOnly (w : Wiring) (b b' : Board) (P : Nat → Prop) : Prop where
  priority : ∀ k m, k < w.nvcpu → m < 2 ^ 32 → (w.irq b'.hv k m).priority ≠ (w.irq b.hv k m).priority →
    P (0x400 + m)
  target : ∀ k m, k < w.nvcpu → m < 2 ^ 32 → (w.irq b'.hv k m).target ≠ (w.irq b.hv k m).target →
    P (0x800 + m)
  enabled : ∀ k m, k < w.nvcpu → m < 2 ^ 32 → (w.irq b'.hv k m).enabled ≠ (w.irq b.hv k m).enabled →
    P (0x100 + m / 8) ∨ P (0x180 + m / 8)
  routes : ∀ a, b'.gic.gicd a ≠ b.gic.gicd a → P a

/-- The bytes of the window whose content a store of `val` to a register by vcpu `j` changes are all in `P`. For an
enable bit this is one of its two bytes. -/
def ChangesIn (w : Wiring) (b : Board) (j val : Nat) (P : Nat → Prop) : GicdReg → Prop
  | .isenabler n => ∀ i, i < 32 → val.testBit i = true → (w.irq b.hv j (n * 32 + i)).enabled = false →
      P (0x100 + (n * 32 + i) / 8) ∨ P (0x180 + (n * 32 + i) / 8)
  | .icenabler n => ∀ i, i < 32 → val.testBit i = true → (w.irq b.hv j (n * 32 + i)).enabled = true →
      P (0x100 + (n * 32 + i) / 8) ∨ P (0x180 + (n * 32 + i) / 8)
  | .ipriorityr n =>
    ∀ i, i < 4 → val / 256 ^ i % 256 ≠ (w.irq b.hv j (n * 4 + i)).priority → P (0x400 + (n * 4 + i))
  | .itargetsr n => ∀ i, i < 4 → val / 256 ^ i % 256 ≠ (w.irq b.hv j (n * 4 + i)).target ∨
      UInt8.ofNat (val / 256 ^ i) ≠ b.gic.gicd (0x800 + (n * 4 + i)) → P (0x800 + (n * 4 + i))
  | .irouter n =>
    ∀ i, i < 4 → UInt8.ofNat (val % 256 / 256 ^ i) ≠ b.gic.gicd (gicdIrouter n + i) → P (gicdIrouter n + i)
  | _ => True

section
variable {w : Wiring} {b : Board} {j m n : Nat} {P : Nat → Prop}

theorem changesOnly_of_same {b' : Board} (hIrq : ∀ k m, w.irq b'.hv k m = w.irq b.hv k m)
    (hGicd : b'.gic.gicd = b.gic.gicd) : ChangesOnly w b b' P where
  priority k m _ _ hNe := absurd (congrArg VgicIrq.priority (hIrq k m)) hNe
  target k m _ _ hNe := absurd (congrArg VgicIrq.target (hIrq k m)) hNe
  enabled k m _ _ hNe := absurd (congrArg VgicIrq.enabled (hIrq k m)) hNe
  routes a hNe := absurd (congrFun hGicd a) hNe

theorem assignAll_changes_iff {α : Type} (f : VgicIrq → α) (h : Wired w b.hv) (hj : j < w.nvcpu)
    (hn : m + n ≤ 2 ^ 32) (a : Nat → Option IrqWrite) (Q : Nat → Prop) :
    (∀ k m', k < w.nvcpu → m' < 2 ^ 32 →
        f (w.irq (assignAll (fun i => w.ref (w.spis b.hv) j (m + i)) a n b.hv) k m') ≠ f (w.irq b.hv k m') →
        Q m') ↔
      ∀ i, i < n → f (changed (w.irq b.hv j (m + i)) (a i)) ≠ f (w.irq b.hv j (m + i)) → Q (m + i) := by
  constructor
  · intro hAll i hi hNe
    apply hAll j (m + i) hj (by omega)
    rwa [irq_assignAll h hj hj hn (by omega), if_pos ⟨by omega, by omega, fun _ => rfl⟩, Nat.add_sub_cancel_left]
  · intro hLoop k m' hk hm' hNe
    rw [irq_assignAll h hj hk hn hm'] at hNe
    split at hNe
    · rename_i hIn
      -- an SPI has one record for all vcpus
      have hSame : w.irq b.hv k m' = w.irq b.hv j m' := by
        obtain hPrivate | hSpi := Nat.lt_or_ge m' 32
        · rw [hIn.2.2 hPrivate]
        · rw [Wiring.irq, Wiring.irq, Wiring.ref, Wiring.ref, if_neg (by omega), if_neg (by omega), if_neg (by omega),
            if_neg (by omega)]
      have hRound := hLoop (m' - m) (Nat.sub_lt_left_of_lt_add hIn.1 hIn.2.1)
      rw [Nat.add_sub_cancel' hIn.1, ← hSame] at hRound
      exact hRound hNe
    · exact absurd rfl hNe

theorem changesOnly_assignAll_iff (h : Wired w b.hv) (hj : j < w.nvcpu) (hn : m + n ≤ 2 ^ 32)
    (a : Nat → Option IrqWrite) (g : PhysGic) :
    ChangesOnly w b { b with hv := assignAll (fun i => w.ref (w.spis b.hv) j (m + i)) a n b.hv, gic := g } P ↔
      (∀ i, i < n → (changed (w.irq b.hv j (m + i)) (a i)).priority ≠ (w.irq b.hv j (m + i)).priority →
          P (0x400 + (m + i))) ∧
      (∀ i, i < n → (changed (w.irq b.hv j (m + i)) (a i)).target ≠ (w.irq b.hv j (m + i)).target →
          P (0x800 + (m + i))) ∧
      (∀ i, i < n → (changed (w.irq b.hv j (m + i)) (a i)).enabled ≠ (w.irq b.hv j (m + i)).enabled →
          P (0x100 + (m + i) / 8) ∨ P (0x180 + (m + i) / 8)) ∧
      ∀ x, g.gicd x ≠ b.gic.gicd x → P x := by
  rw [← assignAll_changes_iff VgicIrq.priority h hj hn a fun m' => P (0x400 + m'),
    ← assignAll_changes_iff VgicIrq.target h hj hn a fun m' => P (0x800 + m'),
    ← assignAll_changes_iff VgicIrq.enabled h hj hn a fun m' => P (0x100 + m' / 8) ∨ P (0x180 + m' / 8)]
  exact ⟨fun hOnly => ⟨hOnly.priority, hOnly.target, hOnly.enabled, hOnly.routes⟩,
    fun ⟨hPriority, hTarget, hEnabled, hRoutes⟩ => ⟨hPriority, hTarget, hEnabled, hRoutes⟩⟩

theorem switchOne_gicd (g : PhysGic) (cpu : Nat) {irq : Nat} (hIrq : irq < 1024) (on : Bool) :
    (switchOne g cpu irq on).gicd = g.gicd := by
  rw [switchOne]
  split
  · exact (rewriteEnables_memory g cpu irq _ hIrq).1
  · exact (rewriteEnables_memory g cpu irq _ hIrq).1

theorem switchAll_gicd (g : PhysGic) (cpu val : Nat) (hm : m + 32 ≤ 1024) (on : Bool) :
    (switchAll g cpu m val on).gicd = g.gicd := by
  apply List.foldlRecOn (motive := fun g' : PhysGic => g'.gicd = g.gicd)
  · rfl
  · intro g' hSame i hi
    have hLt := List.mem_range.mp hi
    split
    · rw [switchOne_gicd g' cpu (by omega), hSame]
    · exact hSame

theorem gicReroute_gicd (g : PhysGic) (spiNum cpu : Nat) {irq : Nat} (hIrq : irq < 1024) {route : PhysGic → PhysGic}
    (put : Mem → Mem) (hRoute : ∀ g, (route g).gicd = put g.gicd) :
    (gicReroute g spiNum cpu irq route).gicd = put g.gicd := by
  rw [gicReroute]
  split
  · rw [gicIrqEnable, (rewriteEnables_memory _ cpu irq _ hIrq).1, hRoute, gicIrqDisable,
      (rewriteEnables_memory g cpu irq _ hIrq).1]
  · exact hRoute g

theorem gicSetTargetByAffinity_gicd (g : PhysGic) (spiNum cpu : Nat) {irq : Nat} (hIrq : irq < 1024) (aff : Nat) :
    (gicSetTargetByAffinity g spiNum cpu irq aff).gicd = store g.gicd (gicdIrouter irq) 4 aff := by
  exact gicReroute_gicd g spiNum cpu hIrq (fun m => store m (gicdIrouter irq) 4 aff)
    fun g => congrArg PhysGic.gicd (gicdW_irouter g irq aff)

theorem gicSetTargetByPeField_gicd (g : PhysGic) (spiNum cpu : Nat) {irq target : Nat} (hIrq : irq < 1024)
    (hTarget : target < 256) :
    (gicSetTargetByPeField g spiNum cpu irq target).gicd = store g.gicd
      (gicdItargetsr (irq / 4) + irq % 4) 1 target := by
  exact gicReroute_gicd g spiNum cpu hIrq (fun m => store m (gicdItargetsr (irq / 4) + irq % 4) 1 target)
    fun g => congrArg PhysGic.gicd (gicdW_itargetsr g irq hTarget)

theorem retargetAll_gicd (g : PhysGic) (spiNum cpu val : Nat) (hn : n < 255) :
    (retargetAll g spiNum cpu (n * 4) val).gicd = store g.gicd (0x800 + n * 4) 4 val := by
  have hRounds : ∀ k, k ≤ 4 →
      ((List.range k).foldl
        (fun g i => gicSetTargetByPeField g spiNum cpu (n * 4 + i) (val >>> (i * 8) &&& 0xff)) g).gicd =
        store g.gicd (0x800 + n * 4) k val := by
    intro k hk
    induction k with
    | zero => exact (store_empty g.gicd _ val).symm
    | succ k ih =>
      have hByte : gicdItargetsr ((n * 4 + k) / 4) + (n * 4 + k) % 4 = 0x800 + n * 4 + k := by
        rw [gicdItargetsr]
        omega
      rw [List.range_succ, List.foldl_append, List.foldl_cons, List.foldl_nil, shift_byte,
        gicSetTargetByPeField_gicd _ spiNum cpu (by omega) (Nat.mod_lt _ (by decide)), ih (by omega), hByte,
        store_byte_mod, ← store_succ]
  exact hRounds 4 (Nat.le_refl 4)

theorem writeEnables_changes_iff (h : Wired w b.hv) (hj : j < w.nvcpu) (cpu val : Nat) (hn : n < 32) (on : Bool)
    {b' : Board} (hRun : writeEnables b cpu (w.vcpu j) (n * 32 : Nat) val on = .ok b') : ChangesOnly w b b' P ↔
      ∀ i, i < 32 → val.testBit i = true → (w.irq b.hv j (n * 32 + i)).enabled = !on →
        P (0x100 + (n * 32 + i) / 8) ∨ P (0x180 + (n * 32 + i) / 8) := by
  rw [writeEnables_eq h hj] at hRun
  cases hRun
  have hGicd := switchAll_gicd b.gic cpu val (show n * 32 + 32 ≤ 1024 by omega) on
  have hNew : ∀ i, (if val.testBit i = true then on else (w.irq b.hv j (n * 32 + i)).enabled) ≠
      (w.irq b.hv j (n * 32 + i)).enabled ↔ val.testBit i = true ∧ (w.irq b.hv j (n * 32 + i)).enabled = !on := by
    intro i
    generalize (w.irq b.hv j (n * 32 + i)).enabled = old
    cases val.testBit i <;> cases on <;> cases old <;> decide
  rw [changesOnly_assignAll_iff h hj (by omega)]
  simp only [changed_enableWrites, hGicd, hNew, and_imp, ne_eq, not_true, false_implies, implies_true, true_and,
    and_true]

theorem writePriorities_changes_iff (h : Wired w b.hv) (hj : j < w.nvcpu) (val : Nat) (hn : n < 255) {b' : Board}
    (hRun : writePriorities b (w.vcpu j) (n * 4 : Nat) val = .ok b') :
    ChangesOnly w b b' P ↔ ChangesIn w b j val P (.ipriorityr n) := by
  rw [writePriorities_eq h hj] at hRun
  cases hRun
  rw [changesOnly_assignAll_iff h hj (by omega), ChangesIn]
  simp only [changed_priorityWrites, ne_eq, not_true, false_implies, implies_true, and_true]

/-- The first record of a register below GICD_ITARGETSR8 is no SPI's. -/
theorem writeTargets_panics (h : Wired w b.hv) (hj : j < w.nvcpu) (cpu val : Nat) (hm : m < 32) :
    writeTargets b cpu (w.vcpu j) (m : Int) val = .error (.panic "[vgicd_mmio_write] invalid intid=%d\n") := by
  have hGet := h.vgicIrqGet hj m
  have hSpi : ¬isSpi (m : Int) = true := by
    rw [isSpi, decide_eq_true_eq]
    omega
  rw [writeTargets, writeLoop, show List.range 4 = [0, 1, 2, 3] from rfl, List.foldlM_cons, Int.natCast_zero,
    Int.add_zero, hGet, ok_bind, deref, ok_bind, if_neg hSpi]
  rfl

theorem writeTargets_changes_iff (h : Wired w b.hv) (hj : j < w.nvcpu) (cpu val : Nat) (hn : n < 255) {b' : Board}
    (hRun : writeTargets b cpu (w.vcpu j) (n * 4 : Nat) val = .ok b') :
    ChangesOnly w b b' P ↔ ChangesIn w b j val P (.itargetsr n) := by
  -- below the SPIs the first round panics
  have hSpi : 32 ≤ n * 4 := by
    by_contra hLt
    rw [writeTargets_panics h hj cpu val (by omega)] at hRun
    cases hRun
  rw [writeTargets_eq h hj cpu hSpi] at hRun
  cases hRun
  rw [changesOnly_assignAll_iff h hj (by omega), ChangesIn]
  simp only [changed_targetWrites, retargetAll_gicd b.gic b.spiNum cpu val hn, store_changes_iff, ne_eq, not_true,
    false_implies, implies_true, true_and, or_imp, forall_and, Nat.add_assoc]

end

section
variable {w : Wiring} {b b' : Board} {j cpu offset val : Nat} {ret : Int}

theorem vgicdMmioWrite_changes_iff (h : Wired w b.hv) (hj : j < w.nvcpu)
    (hRun : vgicdMmioWrite b cpu (w.vcpu j) offset val = .ok (b', ret)) (P : Nat → Prop) :
    ChangesOnly w b b' P ↔ ∀ reg, gicdReg offset = some reg → ChangesIn w b j val P reg := by
  rw [vgicdMmioWrite, h.vm j hj, deref, ok_bind] at hRun
  cases hReg : gicdReg offset with
  | none =>
    rw [hReg] at hRun
    cases hRun
    exact iff_of_true (changesOnly_of_same (fun _ _ => rfl) rfl) fun _ hEq => by cases hEq
  | some reg =>
    rw [hReg] at hRun
    have hCovers := gicdReg_covers hReg
    have hOnly : (∀ reg', some reg = some reg' → ChangesIn w b j val P reg') ↔ ChangesIn w b j val P reg := by
      simp
    rw [hOnly]
    cases reg with
    | ctlr =>
      rw [h.vgic] at hRun
      cases hRun
      refine iff_of_true (changesOnly_of_same (fun k m => ?_) rfl) trivial
      simp only [Wiring.irq, Wiring.spis, Function.update_self]
      rfl
    | isenabler n =>
      obtain ⟨b₁, hLoop, hPure⟩ := bind_eq_ok.mp hRun
      cases hPure
      exact writeEnables_changes_iff h hj cpu val hCovers.2.2 true hLoop
    | icenabler n =>
      obtain ⟨b₁, hLoop, hPure⟩ := bind_eq_ok.mp hRun
      cases hPure
      exact writeEnables_changes_iff h hj cpu val hCovers.2.2 false hLoop
    | ipriorityr n =>
      obtain ⟨b₁, hLoop, hPure⟩ := bind_eq_ok.mp hRun
      cases hPure
      exact writePriorities_changes_iff h hj val hCovers.2.2 hLoop
    | itargetsr n =>
      obtain ⟨b₁, hLoop, hPure⟩ := bind_eq_ok.mp hRun
      cases hPure
      exact writeTargets_changes_iff h hj cpu val hCovers.2.2 hLoop
    | irouter n =>
      cases hRun
      obtain ⟨_, _, _, hLt⟩ := hCovers
      rw [ChangesIn, ← store_changes_iff, ← gicSetTargetByAffinity_gicd b.gic b.spiNum cpu (by omega)]
      exact ⟨ChangesOnly.routes, fun hRoutes =>
        ⟨fun _ _ _ _ hNe => absurd rfl hNe, fun _ _ _ _ hNe => absurd rfl hNe,
        fun _ _ _ _ hNe => absurd rfl hNe, hRoutes⟩⟩
    | typer | iidr | typer2 =>
      cases hRun
      exact iff_of_true (changesOnly_of_same (fun _ _ => rfl) rfl) trivial
    | igroupr n | ispendr n | icpendr n | isactiver n | icactiver n | icfgr n =>
      cases hRun
      exact iff_of_true (changesOnly_of_same (fun _ _ => rfl) rfl) trivial

/-- The bytes of an access. -/
def Covered (offset size a : Nat) : Prop := offset ≤ a ∧ a < offset + size

/-- A store changes only what it covers exactly if it covers the bytes of the register it is taken for that it
changes. -/
theorem store_changes_covered_iff (h : Wired w b.hv) (hj : j < w.nvcpu) {n t ipa sas wnr : Nat}
    (hHits : Hits b.hv (w.vcpu j) ipa .vgicd offset) (hWnr : wnr ≠ 0)
    (hRun : mmioEmulate n b cpu (w.vcpu j) t ⟨ipa, sas, wnr⟩ = .ok (b', ret)) :
    ChangesOnly w b b' (Covered offset (2 ^ sas)) ↔
      ∀ reg, gicdReg offset = some reg → ChangesIn w b j (source b (w.vcpu j) t)
        (Covered offset (2 ^ sas)) reg := by
  rw [mmioEmulate_store hHits n cpu t sas hWnr] at hRun
  exact vgicdMmioWrite_changes_iff h hj hRun _

end

theorem vgicdMmioWrite_ipriorityr {w : Wiring} {b : Board} {j offset n : Nat} (h : Wired w b.hv) (hj : j < w.nvcpu)
    (hReg : gicdReg offset = some (.ipriorityr n)) (cpu val : Nat) :
    vgicdMmioWrite b cpu (w.vcpu j) offset val = .ok ({ b with
      hv := assignAll (fun i => w.ref (w.spis b.hv) j (n * 4 + i)) (priorityWrites val) 4 b.hv }, 0) := by
  rw [vgicdMmioWrite, h.vm j hj, deref, ok_bind, hReg]
  exact bind_eq_ok.mpr ⟨_, writePriorities_eq h hj (n * 4) val, rfl⟩

/-- Vcpu 0 sets the priorities of SPIs 32 to 35 with a word store, and stores a byte 0 to one of them. -/
theorem store_changes_covered_small :
    (∃ b', mmioEmulate 0 (smallBoard.setX 0 1 0x80808080) 0 0 1 ⟨0x8000420, 2, 1⟩ = .ok (b', 0) ∧
      ChangesOnly smallWiring (smallBoard.setX 0 1 0x80808080) b' (Covered 0x420 4)) ∧
    ∃ b', mmioEmulate 0 (smallBoard.setX 0 1 0) 0 0 1 ⟨0x8000421, 0, 1⟩ = .ok (b', 0) ∧
      ChangesOnly smallWiring (smallBoard.setX 0 1 0) b' (Covered 0x421 1) := by
  have hVcpu : 0 < smallWiring.nvcpu := by decide
  constructor
  · have hHits : Hits (smallBoard.setX 0 1 0x80808080).hv (smallWiring.vcpu 0) 0x8000420 .vgicd 0x420 :=
      smallBoard_hits .vgicd 0x420 (by decide) 0x420 0x80000 (by decide)
    have hReg : gicdReg 0x420 = some (.ipriorityr 8) := by decide
    have hWired : Wired smallWiring (smallBoard.setX 0 1 0x80808080).hv := smallBoard_wired
    have hRun := (mmioEmulate_store hHits 0 0 1 2 Nat.one_ne_zero).trans
      (vgicdMmioWrite_ipriorityr hWired hVcpu hReg 0 _)
    refine ⟨_, hRun, (store_changes_covered_iff hWired hVcpu hHits (by decide) hRun).mpr ?_⟩
    intro reg hEq
    rw [hReg] at hEq
    cases hEq
    intro i hi _
    exact ⟨by omega, by omega⟩
  · have hHits : Hits (smallBoard.setX 0 1 0).hv (smallWiring.vcpu 0) 0x8000421 .vgicd 0x421 :=
      smallBoard_hits .vgicd 0x421 (by decide) 0x421 0x80000 (by decide)
    have hReg : gicdReg 0x421 = some (.ipriorityr 8) := by decide
    have hWired : Wired smallWiring (smallBoard.setX 0 1 0).hv := smallBoard_wired
    have hRun := (mmioEmulate_store hHits 0 0 1 0 Nat.one_ne_zero).trans
      (vgicdMmioWrite_ipriorityr hWired hVcpu hReg 0 _)
    have hOld : ∀ i, i < 4 → (smallWiring.irq smallBoard.hv 0 (32 + i)).priority = 0 := by decide +kernel
    refine ⟨_, hRun, (store_changes_covered_iff hWired hVcpu hHits (by decide) hRun).mpr ?_⟩
    intro reg hEq
    rw [hReg] at hEq
    cases hEq
    intro i hi hNe
    refine absurd ?_ hNe
    exact (Nat.zero_div _).symm ▸ (hOld i hi).symm

/-- Vcpu 0 stores a byte to the priority of SPI 33: the byte becomes the priority of SPI 32. It stores
a word to the upper half of GICD_IROUTER40: the physical SPI 40 is routed to cpu 1. -/
theorem store_changes_more :
    (∃ b', mmioEmulate 0 (smallBoard.setX 0 1 0xa0) 0 0 1 ⟨0x8000421, 0, 1⟩ = .ok (b', 0) ∧
      (smallWiring.irq smallBoard.hv 0 32).priority = 0 ∧ (smallWiring.irq b'.hv 0 32).priority = 0xa0 ∧
      ¬ChangesOnly smallWiring (smallBoard.setX 0 1 0xa0) b' (Covered 0x421 1)) ∧
    ∃ b', mmioEmulate 0 (smallBoard.setX 0 1 1) 0 0 1 ⟨0x8006144, 2, 1⟩ = .ok (b', 0) ∧
      b'.gic.gicd (gicdIrouter 40) = 1 ∧
      ¬ChangesOnly smallWiring (smallBoard.setX 0 1 1) b' (Covered 0x6144 4) := by
  constructor
  · have hHits : Hits (smallBoard.setX 0 1 0xa0).hv (smallWiring.vcpu 0) 0x8000421 .vgicd 0x421 :=
      smallBoard_hits .vgicd 0x421 (by decide) 0x421 0x80000 (by decide)
    have hReg : gicdReg 0x421 = some (.ipriorityr 8) := by decide
    have hWired : Wired smallWiring (smallBoard.setX 0 1 0xa0).hv := smallBoard_wired
    have hRun := (mmioEmulate_store hHits 0 0 1 0 Nat.one_ne_zero).trans
      (vgicdMmioWrite_ipriorityr hWired (by decide) hReg 0 _)
    have hOld : (smallWiring.irq smallBoard.hv 0 32).priority = 0 := by decide +kernel
    have hVcpu : 0 < smallWiring.nvcpu := by decide
    have hNew := irq_assignAll hWired hVcpu hVcpu (m := 32) (n := 4) (by decide) (show 32 < 2 ^ 32 by decide)
      (priorityWrites 0xa0)
    rw [if_pos ⟨by decide, by decide, fun _ => rfl⟩, changed_priorityWrites] at hNew
    have hPriority := congrArg VgicIrq.priority hNew
    refine ⟨_, hRun, hOld, hPriority, ?_⟩
    intro hOnly
    have hByte := hOnly.priority 0 32 (by decide) (by decide) (fun hEq => absurd (hEq.symm.trans hPriority) ?_)
    · exact absurd hByte.1 (by decide)
    · exact fun hEq => absurd (hOld.symm.trans hEq) (by decide)
  · have hHits : Hits (smallBoard.setX 0 1 1).hv (smallWiring.vcpu 0) 0x8006144 .vgicd 0x6144 :=
      smallBoard_hits .vgicd 0x6144 (by decide) 0x144 0x80060 (by decide)
    have hVm : ((smallBoard.setX 0 1 1).hv.vcpus 0).vm = some 0 := smallBoard_wired.vm 0 (by decide)
    have hWrite : vgicdMmioWrite (smallBoard.setX 0 1 1) 0 0 0x6144 1 = .ok ({ smallBoard.setX 0 1 1 with
        gic := gicSetTargetByAffinity smallBoard.gic 288 0 40 1 }, 0) := by
      rw [vgicdMmioWrite, hVm, deref, ok_bind, show gicdReg 0x6144 = some (.irouter 40) from by decide]
      rfl
    have hRun := (mmioEmulate_store hHits 0 0 1 2 Nat.one_ne_zero).trans hWrite
    have hRoute : (gicSetTargetByAffinity smallBoard.gic 288 0 40 1).gicd (gicdIrouter 40) = 1 := by decide
    refine ⟨_, hRun, hRoute, ?_⟩
    intro hOnly
    have hByte := hOnly.routes (gicdIrouter 40) (fun hEq => absurd (hEq.symm.trans hRoute) (by decide))
    exact absurd hByte.1 (by decide)

end HyperPoc.Trap
