import HyperPoc.Gic.Init

/-! # What the initialisation covers

Which interrupts are in their initial state after `gicv3_init`, and which registers it has written.
The loop over the group registers ends one register early, routing registers are written with 32-bit
accesses, and the loop over the redistributor's priorities counts interrupts where its register macro
expects registers.
-/
namespace HyperPoc.Gic.Init
open Library.Memory Library.RegisterFile
set_option autoImplicit false

section Redistributor

def Controller.setGicr (s : Controller) (cpu : Nat) (m : Mem) (writes : List (RegAddr × Nat)) : Controller :=
  { s with gic := { s.gic with gicr := Function.update s.gic.gicr cpu m, writes := writes ++ s.gic.writes } }

@[simp] theorem setGicr_gicr (s : Controller) (cpu : Nat) (m : Mem) (writes : List (RegAddr × Nat)) :
    (s.setGicr cpu m writes).gic.gicr cpu = m := Function.update_self _ _ _

@[simp] theorem setGicr_setGicr (s : Controller) (cpu : Nat) (m m' : Mem) (writes writes' : List (RegAddr × Nat)) :
    (s.setGicr cpu m writes).setGicr cpu m' writes' = s.setGicr cpu m' (writes' ++ writes) := by
  simp only [Controller.setGicr, Function.update_idem, List.append_assoc]

theorem gicrW32_plain (s : Controller) (cpu : Nat) {offset : Nat} (h : offset < 0x10100 ∨ 0x10384 ≤ offset)
    (val : Nat) :
    s.gicrW32 cpu offset val =
      s.setGicr cpu (store (s.gic.gicr cpu) offset 4 val) [(.gicr cpu offset, val)] := by
  have hPend : offset ≠ gicrIspendr0 ∧ offset ≠ gicrIcpendr0 ∧ offset ≠ gicrIsactiver0 ∧
      offset ≠ gicrIcactiver0 ∧
      offset ≠ gicrIsenabler0 ∧ offset ≠ gicrIcenabler0 := by
    rw [gicrIspendr0, gicrIcpendr0, gicrIsactiver0, gicrIcactiver0, gicrIsenabler0, gicrIcenabler0]
    omega
  obtain ⟨h₁, h₂, h₃, h₄, h₅, h₆⟩ := hPend
  rw [Controller.gicrW32, if_neg h₁, if_neg h₂, if_neg h₃, if_neg h₄, Gic.gicrW32, if_neg h₅, if_neg h₆]
  rfl

theorem foldl_gicr (cpu : Nat) {addr : Nat → Nat} (v : Nat) {regs : List Nat} (s : Controller)
    (h : ∀ i ∈ regs, addr i < 0x10100 ∨ 0x10384 ≤ addr i) :
    regs.foldl (fun s i => s.gicrW32 cpu (addr i) v) s =
      s.setGicr cpu (writeAll (s.gic.gicr cpu) addr v regs) (regs.map fun i => (.gicr cpu (addr i), v)).reverse := by
  induction regs generalizing s with
  | nil =>
    rw [List.foldl_nil, Controller.setGicr, writeAll, List.foldl_nil, Function.update_eq_self]
    rfl
  | cons i regs ih =>
    rw [List.foldl_cons, ih _ fun j hj => h j (List.mem_cons_of_mem _ hj), gicrW32_plain s cpu (h i List.mem_cons_self),
      setGicr_setGicr, setGicr_gicr, List.map_cons, List.reverse_cons]
    rfl

/-- The registers the priority loop of the redistributor writes: its counter goes through INTIDs. -/
def prioRegs : List Nat := List.range' 0 (32 / 4) 4

/-- What the initialisation leaves in the plain registers of the redistributor. -/
def redistributed (m : Mem) (ctlr waker : Nat) : Mem :=
  let m := store m gicrIgroupr0 4 allOnes
  let m := writeAll m gicrIpriorityr gicIntDefPrio prioRegs
  let m := store m gicrIcfgr1 4 0
  let m := store m gicrCtlr 4 ctlr
  let m := store m gicrIgroupr0 4 allOnes
  let m := store m gicrIgrpmodr0 4 0
  store m gicrWaker 4 waker

/-- The writes to the redistributor, latest first. -/
def redistributorWrites (cpu ctlr waker : Nat) : List (RegAddr × Nat) :=
  [(.gicr cpu gicrWaker, waker), (.gicr cpu gicrIgrpmodr0, 0), (.gicr cpu gicrIgroupr0, allOnes),
    (.gicr cpu gicrCtlr, ctlr), (.gicr cpu gicrIcfgr1, 0)] ++
  (prioRegs.map fun i => (.gicr cpu (gicrIpriorityr i), gicIntDefPrio)).reverse ++
  [(.gicr cpu gicrIcpendr0, allOnes), (.gicr cpu gicrIcenabler0, 0xffff0000), (.gicr cpu gicrIcactiver0, allOnes),
    (.gicr cpu gicrIgroupr0, allOnes)]

/-- The interrupts and registers of the redistributor from `s` to `s'`, and those of the distributor left alone. -/
structure Percpu (s s' : Controller) (cpu ctlr waker : Nat) : Prop where
  gicd : s'.gic.gicd = s.gic.gicd
  spiEnabled : s'.gic.spiEnabled = s.gic.spiEnabled
  spiPending : s'.spiPending = s.spiPending
  gicr : s'.gic.gicr cpu = redistributed (s.gic.gicr cpu) ctlr waker
  enabled : s'.gic.localEnabled cpu = clearEnables (s.gic.localEnabled cpu) 0 0xffff0000
  pending : s'.localPending cpu = clearEnables (s.localPending cpu) 0 allOnes
  active : s'.localActive cpu = clearEnables (s.localActive cpu) 0 allOnes
  writes : s'.gic.writes = redistributorWrites cpu ctlr waker ++ s.gic.writes

/-- The three registers that clear the states of the SGIs and PPIs. -/
def clearLocal (s : Controller) (cpu : Nat) : Controller :=
  { s with
    gic := { s.gic with
      localEnabled := Function.update s.gic.localEnabled cpu (clearEnables (s.gic.localEnabled cpu) 0 0xffff0000)
      writes := (.gicr cpu gicrIcpendr0, allOnes) :: (.gicr cpu gicrIcenabler0, 0xffff0000) ::
        (.gicr cpu gicrIcactiver0, allOnes) :: s.gic.writes }
    localPending := Function.update s.localPending cpu (clearEnables (s.localPending cpu) 0 allOnes)
    localActive := Function.update s.localActive cpu (clearEnables (s.localActive cpu) 0 allOnes) }

theorem clearLocal_gicr (s : Controller) (cpu : Nat) : (clearLocal s cpu).gic.gicr = s.gic.gicr := rfl

theorem clearLocal_eq (s : Controller) (cpu : Nat) :
    ((s.gicrW32 cpu gicrIcactiver0 allOnes).gicrW32 cpu gicrIcenabler0 0xffff0000).gicrW32 cpu gicrIcpendr0 allOnes =
      clearLocal s cpu := by
  have hActive : ∀ s : Controller, s.gicrW32 cpu gicrIcactiver0 allOnes =
      { s.log (.gicr cpu gicrIcactiver0) allOnes with
        localActive := Function.update s.localActive cpu (clearEnables (s.localActive cpu) 0 allOnes) } := fun s => rfl
  have hEnable : ∀ s : Controller, s.gicrW32 cpu gicrIcenabler0 0xffff0000 =
      { s with gic := Gic.gicrW32 s.gic cpu gicrIcenabler0 0xffff0000 } := fun s => rfl
  have hPend : ∀ s : Controller, s.gicrW32 cpu gicrIcpendr0 allOnes =
      { s.log (.gicr cpu gicrIcpendr0) allOnes with
        localPending := Function.update s.localPending cpu (clearEnables (s.localPending cpu) 0 allOnes) } :=
    fun s => rfl
  rw [hActive, hEnable, hPend]
  rfl

theorem initGiccV3_eq (s : Controller) (cpu : Nat) : ∃ icc, initGiccV3 s cpu =
    { (clearLocal (s.setGicr cpu (store (s.gic.gicr cpu) gicrIgroupr0 4 allOnes) [(.gicr cpu gicrIgroupr0, allOnes)])
        cpu).setGicr cpu
        (store (writeAll (store (s.gic.gicr cpu) gicrIgroupr0 4 allOnes) gicrIpriorityr gicIntDefPrio prioRegs)
          gicrIcfgr1 4 0)
        ((.gicr cpu gicrIcfgr1, 0) :: (prioRegs.map fun i =>
          (.gicr cpu (gicrIpriorityr i), gicIntDefPrio)).reverse) with
      icc := icc } := by
  have hPrio : ∀ i ∈ prioRegs, gicrIpriorityr i < 0x10100 ∨ 0x10384 ≤ gicrIpriorityr i := by
    intro i _
    rw [gicrIpriorityr]
    omega
  rw [initGiccV3]
  dsimp only
  rw [gicrW32_plain s cpu (.inl (by decide)), clearLocal_eq, ← prioRegs, foldl_gicr cpu _ _ hPrio,
    gicrW32_plain _ cpu (.inr (by decide)), setGicr_setGicr, setGicr_gicr, clearLocal_gicr, setGicr_gicr]
  exact ⟨_, rfl⟩

theorem initGicrV3_eq (s : Controller) (cpu : Nat) : ∃ ctlr waker, initGicrV3 s cpu =
    s.setGicr cpu
      (store (store (store (store (s.gic.gicr cpu) gicrCtlr 4 ctlr) gicrIgroupr0 4 allOnes) gicrIgrpmodr0 4 0)
        gicrWaker 4 waker)
      [(.gicr cpu gicrWaker, waker), (.gicr cpu gicrIgrpmodr0, 0), (.gicr cpu gicrIgroupr0, allOnes),
        (.gicr cpu gicrCtlr, ctlr)] := by
  rw [initGicrV3, gicrW32_plain s cpu (.inl (by decide)), gicrW32_plain _ cpu (.inl (by decide)),
    gicrW32_plain _ cpu (.inr (by decide)), gicrW32_plain _ cpu (.inl (by decide))]
  simp only [setGicr_setGicr, setGicr_gicr]
  exact ⟨_, _, rfl⟩

theorem initGicv3Percpu_spec (s : Controller) (cpu : Nat) : ∃ ctlr waker,
    Percpu s (initGicv3Percpu s cpu) cpu ctlr waker := by
  obtain ⟨icc, hGicc⟩ := initGiccV3_eq s cpu
  obtain ⟨ctlr, waker, hGicr⟩ := initGicrV3_eq (initGiccV3 s cpu) cpu
  refine ⟨ctlr, waker, ?_⟩
  rw [initGicv3Percpu, hGicr, hGicc]
  refine ⟨rfl, rfl, rfl, ?_, ?_, ?_, ?_, ?_⟩
  · exact (Function.update_self _ _ _).trans (by rw [setGicr_gicr]; rfl)
  · exact Function.update_self _ _ _
  · exact Function.update_self _ _ _
  · exact Function.update_self _ _ _
  · rfl

theorem mem_prioRegs {k : Nat} : k ∈ prioRegs ↔ ∃ j < 8, k = 4 * j := by
  rw [prioRegs, List.mem_range']
  simp only [Nat.zero_add, Nat.reduceDiv]

theorem redistributed_group (m : Mem) (ctlr waker : Nat) :
    load (redistributed m ctlr waker) gicrIgroupr0 4 = allOnes := by
  rw [redistributed, load_store_of_disjoint (.inr (by decide)), load_store_of_disjoint (.inl (by decide))]
  exact load_store (by decide)

/-- Of the eight priority registers only the first of each half is written. -/
theorem redistributed_prio (m : Mem) (ctlr waker : Nat) {k : Nat} (hk : k < 8) :
    load (redistributed m ctlr waker) (gicrIpriorityr k) 4 =
      if k % 4 = 0 then gicIntDefPrio else load m (gicrIpriorityr k) 4 := by
  have hLow : 0x10400 ≤ gicrIpriorityr k ∧ gicrIpriorityr k + 4 ≤ 0x10420 := by
    rw [gicrIpriorityr]
    omega
  have hApart : ∀ i j, i ≠ j → gicrIpriorityr i + 4 ≤ gicrIpriorityr j ∨
      gicrIpriorityr j + 4 ≤ gicrIpriorityr i := by
    intro i j hNe
    rw [gicrIpriorityr, gicrIpriorityr]
    omega
  rw [redistributed, load_store_of_disjoint (.inr (by rw [gicrWaker]; omega)),
    load_store_of_disjoint (.inl (by rw [gicrIgrpmodr0]; omega)),
    load_store_of_disjoint (.inr (by rw [gicrIgroupr0]; omega)),
    load_store_of_disjoint (.inr (by rw [gicrCtlr]; omega)), load_store_of_disjoint (.inl (by rw [gicrIcfgr1]; omega))]
  split
  · rename_i hMod
    apply writeAll_of_mem hApart _ (by decide)
    rw [mem_prioRegs]
    exact ⟨k / 4, by omega, by omega⟩
  · rename_i hMod
    have hOut : ∀ i ∈ prioRegs, gicrIpriorityr k + 4 ≤ gicrIpriorityr i ∨
        gicrIpriorityr i + 4 ≤ gicrIpriorityr k := by
      intro i hi
      rw [mem_prioRegs] at hi
      exact hApart k i (by omega)
    rw [writeAll_of_apart _ _ hOut, load_store_of_disjoint (.inr (by rw [gicrIgroupr0]; omega))]

end Redistributor

/-- The group bit, the upper affinity byte of the route and the priority of an interrupt, as the registers hold them. -/
def spiGroup (s : Controller) (m : Nat) : Bool := (gicdR s.gic (gicdIgroupr (m / 32))).testBit (m % 32)

def spiAff3 (s : Controller) (m : Nat) : Nat := gicdR s.gic (gicdIrouter m + 4) &&& 0xff

def localPriority (s : Controller) (cpu m : Nat) : Nat :=
  gicrR32 s.gic cpu (gicrIpriorityr (m / 4)) >>> (8 * (m % 4)) &&& 0xff

structure SpiReady (s : Controller) (m : Nat) : Prop where
  group : spiGroup s m = true
  disabled : s.gic.spiEnabled m = false
  idle : s.spiPending m = false
  level : (gicdR s.gic (gicdIcfgr (m / 16))).testBit (2 * (m % 16) + 1) = false
  priority : gicdR s.gic (gicdIpriorityr (m / 4)) >>> (8 * (m % 4)) &&& 0xff = 0xA0
  /-- Affinities 0 to 2 and the routing mode in the lower word, affinity 3 in the upper. -/
  route : gicdR s.gic (gicdIrouter m) &&& 0x80ffffff = 0 ∧ spiAff3 s m = 0

structure LocalReady (s : Controller) (cpu m : Nat) : Prop where
  group : (gicrR32 s.gic cpu gicrIgroupr0).testBit m = true
  inactive : s.localActive cpu m = false
  idle : s.localPending cpu m = false
  priority : localPriority s cpu m = 0xA0
  disabled : 16 ≤ m → s.gic.localEnabled cpu m = false

/-- The registers of the families in question that exist with `n` = `ITLinesNumber`. -/
def Implemented (n cpu : Nat) : RegAddr → Prop
  | .gicd o => o = gicdCtlr ∨ ∃ i, (o = gicdIgroupr i ∧ i ≤ n) ∨ (o = gicdIcenabler i ∧ i ≤ n) ∨
      (o = gicdIcpendr i ∧ i ≤ n) ∨ (o = gicdIpriorityr i ∧ i < 8 * (n + 1) ∧ i < 255) ∨
      (o = gicdIcfgr i ∧ i < 2 * (n + 1)) ∨ (o = gicdIrouter i ∧ 32 ≤ i ∧ i < 32 * (n + 1) ∧ i < 1020)
  | .gicr c o => c = cpu ∧ (o ∈ [gicrCtlr, gicrWaker, gicrIgroupr0, gicrIcenabler0, gicrIcpendr0, gicrIcactiver0,
      gicrIcfgr1, gicrIgrpmodr0] ∨ ∃ i < 8, o = gicrIpriorityr i)

theorem gicdR_plain (g : PhysGic) {o : Nat} (h : o < 0x100 ∨ 0x200 ≤ o) : gicdR g o = load g.gicd o 4 := by
  rw [gicdR, if_neg (by omega)]

theorem gicrR32_plain (g : PhysGic) (cpu : Nat) {o : Nat} (h : o < 0x10100 ∨ 0x10184 ≤ o) :
    gicrR32 g cpu o = load (g.gicr cpu) o 4 := by
  rw [gicrR32, gicrIsenabler0, gicrIcenabler0, if_neg (by omega)]

theorem gicIntDefPrio_byte {j : Nat} (hj : j < 4) : gicIntDefPrio >>> (8 * j) &&& 0xff = 0xA0 := by
  have hAll : ∀ j < 4, gicIntDefPrio >>> (8 * j) &&& 0xff = 0xA0 := by decide
  exact hAll j hj

/-- The distributor after the whole initialisation. -/
theorem gicv3Init_gicd (s : Controller) (cpu : Nat) : ∃ first last,
    (gicv3Init s cpu).gic.gicd = distributed s.gic.gicd (itLines s) first last ∧
      (gicv3Init s cpu).gic.spiEnabled = clearAll s.gic.spiEnabled (spiRegs 1 (itLines s)) ∧
      (gicv3Init s cpu).spiPending = clearAll s.spiPending (spiRegs 1 (itLines s)) := by
  obtain ⟨first, last, hGicd⟩ := initGicdV3_eq s
  obtain ⟨ctlr, waker, hCpu⟩ := initGicv3Percpu_spec (initGicdV3 s) cpu
  refine ⟨first, last, ?_, ?_, ?_⟩
  · rw [gicv3Init, hCpu.gicd, hGicd]
  · rw [gicv3Init, hCpu.spiEnabled, hGicd]
  · rw [gicv3Init, hCpu.spiPending, hGicd]

theorem spiReady_iff (s : Controller) (cpu : Nat) {m : Nat} (hLow : 32 ≤ m) (hHigh : m < 32 * (itLines s + 1)) :
    SpiReady (gicv3Init s cpu) m ↔ (m / 32 < itLines s ∨ spiGroup s m = true) ∧ spiAff3 s m = 0 := by
  have hn := itLines_lt s
  obtain ⟨first, last, hGicd, hEnabled, hPending⟩ := gicv3Init_gicd s cpu
  have hReg : m / 32 ∈ spiRegs 1 (itLines s) := mem_spiRegs.mpr ⟨by omega, by omega⟩
  have hGroup : spiGroup (gicv3Init s cpu) m = true ↔ m / 32 < itLines s ∨ spiGroup s m = true := by
    rw [spiGroup, spiGroup, gicdR_plain _ (.inl (by rw [gicdIgroupr]; omega)),
      gicdR_plain _ (.inl (by rw [gicdIgroupr]; omega)), hGicd, distributed_group _ hn _ _ (by omega)]
    split
    · rename_i hIn
      simp only [testBit_allOnes (Nat.mod_lt m (by decide)), hIn, true_or]
    · rename_i hOut
      simp only [hOut, false_or]
  obtain ⟨hRoute, hUpper⟩ := distributed_route s.gic.gicd hn first last
    (mem_spiRegs.mpr ⟨hLow, hHigh⟩ : m ∈ spiRegs 32 (itLines s))
  have hAff : spiAff3 (gicv3Init s cpu) m = spiAff3 s m := by
    rw [spiAff3, spiAff3, gicdR_plain _ (.inr (by rw [gicdIrouter]; omega)),
      gicdR_plain _ (.inr (by rw [gicdIrouter]; omega)), hGicd, hUpper]
  constructor
  · intro hReady
    exact ⟨hGroup.mp hReady.group, hAff ▸ hReady.route.2⟩
  · rintro ⟨hIn, hZero⟩
    refine ⟨hGroup.mpr hIn, ?_, ?_, ?_, ?_, ?_, hAff.trans hZero⟩
    · rw [hEnabled, clearAll_eq, decide_eq_true hReg, Bool.not_true, Bool.and_false]
    · rw [hPending, clearAll_eq, decide_eq_true hReg, Bool.not_true, Bool.and_false]
    · rw [gicdR_plain _ (.inr (by rw [gicdIcfgr]; omega)), hGicd,
        distributed_level _ hn _ _ (mem_spiRegs.mpr ⟨by omega, by omega⟩), Nat.zero_testBit]
    · rw [gicdR_plain _ (.inr (by rw [gicdIpriorityr]; omega)), hGicd,
        distributed_prio _ hn _ _ (mem_spiRegs.mpr ⟨by omega, by omega⟩)]
      exact gicIntDefPrio_byte (Nat.mod_lt _ (by decide))
    · rw [gicdR_plain _ (.inr (by rw [gicdIrouter]; omega)), hGicd, hRoute, Nat.zero_and]

theorem initGicdV3_local (s : Controller) : (initGicdV3 s).gic.gicr = s.gic.gicr := by
  obtain ⟨first, last, hGicd⟩ := initGicdV3_eq s
  rw [hGicd]

theorem clearEnables_local (state : Nat → Bool) {val m : Nat} (hm : m < 32) (hBit : val.testBit m = true) :
    clearEnables state 0 val m = false := by
  rw [clearEnables, if_pos (by omega), Nat.mod_eq_of_lt hm, hBit, Bool.not_true, Bool.and_false]

theorem localReady_iff (s : Controller) (cpu : Nat) {m : Nat} (hm : m < 32) :
    LocalReady (gicv3Init s cpu) cpu m ↔ m / 4 % 4 = 0 ∨ localPriority s cpu m = 0xA0 := by
  obtain ⟨ctlr, waker, hCpu⟩ := initGicv3Percpu_spec (initGicdV3 s) cpu
  have hPrio : localPriority (gicv3Init s cpu) cpu m = 0xA0 ↔ m / 4 % 4 = 0 ∨ localPriority s cpu m = 0xA0 := by
    rw [localPriority, localPriority, gicrR32_plain _ _ (.inr (by rw [gicrIpriorityr]; omega)),
      gicrR32_plain _ _ (.inr (by rw [gicrIpriorityr]; omega)), gicv3Init, hCpu.gicr,
        redistributed_prio _ _ _ (by omega),
      initGicdV3_local]
    split
    · rename_i hIn
      simp only [gicIntDefPrio_byte (Nat.mod_lt m (by decide)), hIn, true_or]
    · rename_i hOut
      simp only [hOut, false_or]
  constructor
  · intro hReady
    exact hPrio.mp hReady.priority
  · intro hIn
    refine ⟨?_, ?_, ?_, hPrio.mpr hIn, ?_⟩
    · rw [gicrR32_plain _ _ (.inl (by decide)), gicv3Init, hCpu.gicr, redistributed_group]
      exact testBit_allOnes hm
    · rw [gicv3Init, hCpu.active, clearEnables_local _ hm (testBit_allOnes hm)]
    · rw [gicv3Init, hCpu.pending, clearEnables_local _ hm (testBit_allOnes hm)]
    · intro hPpi
      have hBits : ∀ m < 32, 16 ≤ m → (0xffff0000 : Nat).testBit m = true := by decide
      rw [gicv3Init, hCpu.enabled, clearEnables_local _ hm (hBits m hm hPpi)]

/-- The writes to registers that do not exist: six behind the redistributor's priorities on every machine, and those for
INTIDs 1020 to 1023 where all 32 blocks of interrupts are implemented. -/
def Stray (n cpu : Nat) (r : RegAddr) : Prop :=
  (∃ j, 2 ≤ j ∧ j < 8 ∧ r = .gicr cpu (gicrIpriorityr (4 * j))) ∨
    n = 31 ∧ (r = .gicd (gicdIpriorityr 255) ∨ ∃ i, 1020 ≤ i ∧ i < 1024 ∧ r = .gicd (gicdIrouter i))

theorem mem_regWrites {addr : Nat → Nat} {v w : Nat} {regs : List Nat} {r : RegAddr} :
    (r, w) ∈ regWrites addr v regs ↔ ∃ i ∈ regs, r = .gicd (addr i) ∧ w = v := by
  simp only [regWrites, List.mem_reverse, List.mem_map, Prod.mk.injEq, eq_comm]

theorem mem_clearWrites {w : Nat} {regs : List Nat} {r : RegAddr} (h : (r, w) ∈ clearWrites regs) :
    ∃ i ∈ regs, r = .gicd (gicdIcenabler i) ∨ r = .gicd (gicdIcpendr i) := by
  rw [clearWrites, List.mem_reverse, List.mem_flatMap] at h
  obtain ⟨i, hi, hMem⟩ := h
  simp only [List.mem_cons, Prod.mk.injEq, List.not_mem_nil, or_false] at hMem
  exact ⟨i, hi, hMem.imp And.left And.left⟩

theorem distributorWrites_cases {n first last w : Nat} (hn : n < 32) {r : RegAddr} (cpu : Nat)
    (h : (r, w) ∈ distributorWrites n first last) : Implemented n cpu r ∨ Stray n cpu r := by
  simp only [distributorWrites, List.mem_cons, List.mem_append, mem_regWrites, List.not_mem_nil, or_false] at h
  obtain hCtlr | ⟨i, hi, rfl, _⟩ | ⟨i, hi, rfl, _⟩ | ⟨i, hi, rfl, _⟩ |
      ⟨i, hi, rfl, _⟩ | hClear | hCtlr := h
  · cases hCtlr
    exact .inl (.inl rfl)
  · rw [List.mem_range] at hi
    exact .inl (.inr ⟨i, .inl ⟨rfl, by omega⟩⟩)
  · -- the routes: one register for each INTID, also for the four that are no SPIs
    rw [mem_spiRegs] at hi
    by_cases hReal : i < 1020
    · exact .inl (.inr ⟨i, .inr (.inr (.inr (.inr (.inr ⟨rfl, hi.1, hi.2, hReal⟩))))⟩)
    · exact .inr (.inr ⟨by omega, .inr ⟨i, by omega, by omega, rfl⟩⟩)
  · rw [mem_spiRegs] at hi
    exact .inl (.inr ⟨i, .inr (.inr (.inr (.inr (.inl ⟨rfl, hi.2⟩))))⟩)
  · rw [mem_spiRegs] at hi
    by_cases hReal : i < 255
    · exact .inl (.inr ⟨i, .inr (.inr (.inr (.inl ⟨rfl, hi.2, hReal⟩)))⟩)
    · obtain rfl : i = 255 := by omega
      exact .inr (.inr ⟨by omega, .inl rfl⟩)
  · obtain ⟨i, hi, rfl | rfl⟩ := mem_clearWrites hClear
    · rw [mem_spiRegs] at hi
      exact .inl (.inr ⟨i, .inr (.inl ⟨rfl, by omega⟩)⟩)
    · rw [mem_spiRegs] at hi
      exact .inl (.inr ⟨i, .inr (.inr (.inl ⟨rfl, by omega⟩))⟩)
  · cases hCtlr
    exact .inl (.inl rfl)

theorem redistributorWrites_cases {cpu ctlr waker w : Nat} {r : RegAddr} (n : Nat)
    (h : (r, w) ∈ redistributorWrites cpu ctlr waker) : Implemented n cpu r ∨ Stray n cpu r := by
  simp only [redistributorWrites, List.mem_append, List.mem_reverse, List.mem_map, List.mem_cons, Prod.mk.injEq,
    List.not_mem_nil, or_false] at h
  obtain (hLast | ⟨i, hi, hReg, _⟩) | hFirst := h
  · rcases hLast with ⟨rfl, _⟩ | ⟨rfl, _⟩ | ⟨rfl, _⟩ | ⟨rfl, _⟩ | ⟨rfl, _⟩
      <;> exact .inl ⟨rfl, .inl (by decide)⟩
  · obtain ⟨j, hj, rfl⟩ := mem_prioRegs.mp hi
    subst hReg
    -- the loop counts INTIDs and uses them as register numbers
    by_cases hReal : j < 2
    · exact .inl ⟨rfl, .inr ⟨4 * j, by omega, rfl⟩⟩
    · exact .inr (.inl ⟨j, by omega, hj, rfl⟩)
  · rcases hFirst with ⟨rfl, _⟩ | ⟨rfl, _⟩ | ⟨rfl, _⟩ | ⟨rfl, _⟩
      <;> exact .inl ⟨rfl, .inl (by decide)⟩

theorem Stray.not_implemented {n cpu : Nat} {r : RegAddr} (h : Stray n cpu r) : ¬Implemented n cpu r := by
  obtain ⟨j, hLow, hHigh, rfl⟩ | ⟨rfl, rfl | ⟨k, hLow, hHigh, rfl⟩⟩ := h
  · rintro ⟨_, hMem | ⟨i, hi, hEq⟩⟩
    · simp only [List.mem_cons, List.not_mem_nil, or_false, gicrIpriorityr, gicrCtlr, gicrWaker, gicrIgroupr0,
        gicrIcenabler0, gicrIcpendr0, gicrIcactiver0, gicrIcfgr1, gicrIgrpmodr0] at hMem
      omega
    · rw [gicrIpriorityr, gicrIpriorityr] at hEq
      omega
  · rintro (hEq | ⟨i, hReg⟩)
    · cases hEq
    · simp only [gicdIgroupr, gicdIcenabler, gicdIcpendr, gicdIpriorityr, gicdIcfgr, gicdIrouter] at hReg
      omega
  · rintro (hEq | ⟨i, hReg⟩)
    · rw [gicdIrouter, gicdCtlr] at hEq
      omega
    · simp only [gicdIgroupr, gicdIcenabler, gicdIcpendr, gicdIpriorityr, gicdIcfgr, gicdIrouter] at hReg
      omega

theorem Stray.written {n cpu : Nat} {r : RegAddr} (h : Stray n cpu r) (first last ctlr waker : Nat) :
    ∃ w, (r, w) ∈ redistributorWrites cpu ctlr waker ++ distributorWrites n first last := by
  obtain ⟨j, _, hHigh, rfl⟩ | ⟨rfl, rfl | ⟨k, hLow, hHigh, rfl⟩⟩ := h
  · refine ⟨gicIntDefPrio, List.mem_append_left _ (List.mem_append_left _ (List.mem_append_right _ ?_))⟩
    exact List.mem_reverse.mpr (List.mem_map.mpr ⟨4 * j, mem_prioRegs.mpr ⟨j, hHigh, rfl⟩, rfl⟩)
  · refine ⟨gicIntDefPrio, List.mem_append_right _ ?_⟩
    simp only [distributorWrites, List.mem_cons, List.mem_append, mem_regWrites]
    exact .inr (.inr (.inr (.inr (.inl ⟨255, mem_spiRegs.mpr (by decide), rfl, trivial⟩))))
  · refine ⟨0, List.mem_append_right _ ?_⟩
    simp only [distributorWrites, List.mem_cons, List.mem_append, mem_regWrites]
    exact .inr (.inr (.inl ⟨k, mem_spiRegs.mpr ⟨by omega, by omega⟩, rfl, trivial⟩))

/-- An SPI is ready unless it is in the last block and was not in group 1 before, or its route had an upper affinity; an
SGI or PPI is ready if its priority register is one of the two that are written, or held the priority before. The stray
writes are all that goes outside the implemented registers. -/
theorem gicv3Init_covers (s : Controller) (cpu : Nat) :
    (∀ m, 32 ≤ m → m < min (32 * (itLines s + 1)) 1020 →
      (SpiReady (gicv3Init s cpu) m ↔ (m / 32 < itLines s ∨ spiGroup s m = true) ∧ spiAff3 s m = 0)) ∧
    (∀ m < 32, LocalReady (gicv3Init s cpu) cpu m ↔ m / 4 % 4 = 0 ∨ localPriority s cpu m = 0xA0) ∧
    ∃ w, (gicv3Init s cpu).gic.writes = w ++ s.gic.writes ∧
      ∀ r, (∃ v, (r, v) ∈ w) ∧ ¬Implemented (itLines s) cpu r ↔ Stray (itLines s) cpu r := by
  refine ⟨fun m hLow hHigh => spiReady_iff s cpu hLow (by omega), fun m hm => localReady_iff s cpu hm, ?_⟩
  obtain ⟨first, last, hGicd⟩ := initGicdV3_eq s
  obtain ⟨ctlr, waker, hCpu⟩ := initGicv3Percpu_spec (initGicdV3 s) cpu
  refine ⟨redistributorWrites cpu ctlr waker ++ distributorWrites (itLines s) first last, ?_, fun r => ⟨?_, ?_⟩⟩
  · rw [gicv3Init, hCpu.writes, hGicd, List.append_assoc]
  · rintro ⟨⟨v, hMem⟩, hNot⟩
    obtain hLocal | hShared := List.mem_append.mp hMem
    · exact (redistributorWrites_cases (itLines s) hLocal).resolve_left hNot
    · exact (distributorWrites_cases (itLines_lt s) cpu hShared).resolve_left hNot
  · intro hStray
    exact ⟨hStray.written first last ctlr waker, hStray.not_implemented⟩

/-- A controller with 32 SPIs and all other registers 0. -/
def blankController : Controller where
  gic := ⟨fun _ => true, fun _ _ => true, store (fun _ => 0) gicdTyper 4 1, fun _ _ => 0, []⟩
  spiPending := fun _ => true
  localPending := fun _ _ => true
  localActive := fun _ _ => true
  icc := fun _ => ⟨0, 0, 0, 0, 0, 0, 0, 0, 0⟩
  spiNum := 0
  lrMax := 0

/-- INTID 32 stays in group 0, INTID 4 keeps priority 0, and a register that does not exist is written. -/
theorem gicv3Init_misses : itLines blankController = 1 ∧ ¬SpiReady (gicv3Init blankController 0) 32 ∧
    ¬LocalReady (gicv3Init blankController 0) 0 4 ∧
    (RegAddr.gicr 0 (gicrIpriorityr 8), gicIntDefPrio) ∈ (gicv3Init blankController 0).gic.writes ∧
    ¬Implemented 1 0 (.gicr 0 (gicrIpriorityr 8)) := by
  have hLines : itLines blankController = 1 := by decide +kernel
  have hGroup : spiGroup (gicv3Init blankController 0) 32 = false := by decide +kernel
  have hPrio : localPriority (gicv3Init blankController 0) 0 4 = 0 := by decide +kernel
  refine ⟨hLines, fun hReady => ?_, fun hReady => ?_, by decide +kernel, ?_⟩
  · exact Bool.false_ne_true (hGroup.symm.trans hReady.group)
  · exact absurd (hPrio.symm.trans hReady.priority) (by decide)
  · exact Stray.not_implemented (.inl ⟨2, by decide, by decide, rfl⟩)

end HyperPoc.Gic.Init
