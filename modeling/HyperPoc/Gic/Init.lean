import HyperPoc.Gic.Physical
import HyperPoc.Library.RegisterFile

/-! # Initialisation of the interrupt controller

`gicv3_init` on one cpu: loops over the register files of the distributor, then the redistributor and
the cpu interface of the cpu. The set- and clear-registers for the pending and active states act on
these states as those for the enables do. Waiting for a register write or for the redistributor to
wake up changes nothing here.
-/
namespace HyperPoc.Gic.Init
open Library.Memory Library.RegisterFile
set_option autoImplicit false

/-- The system registers of a cpu that the initialisation reads or writes. -/
structure CpuInterface where
  iccIgrpen0El1 : Nat
  iccIgrpen1El1 : Nat
  iccSreEl1 : Nat
  iccSreEl2 : Nat
  iccPmrEl1 : Nat
  iccCtlrEl1 : Nat
  ichVmcrEl2 : Nat
  ichHcrEl2 : Nat
  ichVtrEl2 : Nat

/-- The controller with the variables `g_spi_num` and `g_gic_lr_max`. -/
structure Controller where
  gic : PhysGic
  spiPending : Nat → Bool
  localPending : Nat → Nat → Bool
  localActive : Nat → Nat → Bool
  icc : Nat → CpuInterface
  spiNum : Nat
  lrMax : Nat

def gicdCtlr : Nat := 0x0
def gicdTyper : Nat := 0x4
def gicdIgroupr (n : Nat) : Nat := 0x080 + n * 4
def gicdIcenabler (n : Nat) : Nat := 0x180 + n * 4
def gicdIcpendr (n : Nat) : Nat := 0x280 + n * 4
def gicdIpriorityr (n : Nat) : Nat := 0x400 + n * 4
def gicdIcfgr (n : Nat) : Nat := 0xc00 + n * 4
def gicrCtlr : Nat := 0x0
def gicrWaker : Nat := 0x14
def gicrIgroupr0 : Nat := 0x10080
def gicrIspendr0 : Nat := 0x10200
def gicrIcpendr0 : Nat := 0x10280
def gicrIsactiver0 : Nat := 0x10300
def gicrIcactiver0 : Nat := 0x10380
def gicrIpriorityr (n : Nat) : Nat := 0x10400 + n * 4
def gicrIcfgr1 : Nat := 0x10c04
def gicrIgrpmodr0 : Nat := 0x10d00

def allOnes : Nat := 0xffffffff
def gicIntDefPrio : Nat := 0xA0A0A0A0

namespace Controller

def log (s : Controller) (r : RegAddr) (val : Nat) : Controller :=
  { s with gic := { s.gic with writes := (r, val) :: s.gic.writes } }

def gicdW (s : Controller) (offset val : Nat) : Controller :=
  if 0x200 ≤ offset ∧ offset < 0x280 then
    { s.log (.gicd offset) val with spiPending := setEnables s.spiPending (offset % 0x80 / 4) val }
  else if 0x280 ≤ offset ∧ offset < 0x300 then
    { s.log (.gicd offset) val with spiPending := clearEnables s.spiPending (offset % 0x80 / 4) val }
  else { s with gic := Gic.gicdW s.gic offset val }

def gicrW32 (s : Controller) (cpu offset val : Nat) : Controller :=
  if offset = gicrIspendr0 then
    { s.log (.gicr cpu offset) val with
      localPending := Function.update s.localPending cpu (setEnables (s.localPending cpu) 0 val) }
  else if offset = gicrIcpendr0 then
    { s.log (.gicr cpu offset) val with
      localPending := Function.update s.localPending cpu (clearEnables (s.localPending cpu) 0 val) }
  else if offset = gicrIsactiver0 then
    { s.log (.gicr cpu offset) val with
      localActive := Function.update s.localActive cpu (setEnables (s.localActive cpu) 0 val) }
  else if offset = gicrIcactiver0 then
    { s.log (.gicr cpu offset) val with
      localActive := Function.update s.localActive cpu (clearEnables (s.localActive cpu) 0 val) }
  else { s with gic := Gic.gicrW32 s.gic cpu offset val }

end Controller

/-- `for (i = start; stop > i; ++i)`. -/
def forRegs (start stop : Nat) (body : Controller → Nat → Controller) (s : Controller) : Controller :=
  (List.range' start (stop - start)).foldl body s

/-- The loops of `init_gicd_v3`, in order. -/
def disableSpis (s : Controller) : Controller :=
  forRegs (32 / 32) ((s.spiNum + 32 - 1) / 32)
    (fun s i => (s.gicdW (gicdIcenabler i) allOnes).gicdW (gicdIcpendr i) allOnes) s

def prioritiseSpis (s : Controller) : Controller :=
  forRegs (32 / 4) ((s.spiNum + 4 - 1) / 4) (fun s i => s.gicdW (gicdIpriorityr i) gicIntDefPrio) s

def levelSpis (s : Controller) : Controller :=
  forRegs (32 / 16) ((s.spiNum + 16 - 1) / 16) (fun s i => s.gicdW (gicdIcfgr i) 0) s

def routeSpis (s : Controller) : Controller :=
  forRegs 32 s.spiNum (fun s i => s.gicdW (gicdIrouter i) 0) s

def groupSpis (typer : Nat) (s : Controller) : Controller :=
  forRegs 0 (typer &&& 0x1f) (fun s i => s.gicdW (gicdIgroupr i) allOnes) s

def initGicdV3 (s : Controller) : Controller :=
  let s := s.gicdW gicdCtlr (gicdR s.gic gicdCtlr &&& (allOnes ^^^ 3))
  let typer := gicdR s.gic gicdTyper
  let s := { s with spiNum := ((typer &&& 0x1f) + 1) * 32 }
  let s := groupSpis typer (routeSpis (levelSpis (prioritiseSpis (disableSpis s))))
  s.gicdW gicdCtlr (gicdR s.gic gicdCtlr ||| 3)

/-- The system registers of the cpu interface as `init_gicc_v3` leaves them: only group 1 is enabled, and writing the
end-of-interrupt register drops the priority without deactivating. -/
def CpuInterface.init (icc : CpuInterface) : CpuInterface :=
  { icc with
    iccIgrpen0El1 := 0
    iccIgrpen1El1 := 1
    iccSreEl2 := icc.iccSreEl2 ||| (1 ||| 1 <<< 3)
    iccSreEl1 := icc.iccSreEl1 ||| 1
    iccPmrEl1 := 0xff
    iccCtlrEl1 := icc.iccCtlrEl1 ||| 1 <<< 1 }

def initGiccV3 (s : Controller) (cpu : Nat) : Controller :=
  let s := s.gicrW32 cpu gicrIgroupr0 allOnes
  let s := s.gicrW32 cpu gicrIcactiver0 allOnes
  let s := s.gicrW32 cpu gicrIcenabler0 0xffff0000
  let s := s.gicrW32 cpu gicrIcpendr0 allOnes
  let s := (List.range' 0 (32 / 4) 4).foldl (fun s i => s.gicrW32 cpu (gicrIpriorityr i) gicIntDefPrio) s
  let s := s.gicrW32 cpu gicrIcfgr1 0
  { s with icc := Function.update s.icc cpu (s.icc cpu).init }

def initGicrV3 (s : Controller) (cpu : Nat) : Controller :=
  let s := s.gicrW32 cpu gicrCtlr (gicrR32 s.gic cpu gicrCtlr &&& (allOnes ^^^ 1))
  let s := s.gicrW32 cpu gicrIgroupr0 allOnes
  let s := s.gicrW32 cpu gicrIgrpmodr0 0
  s.gicrW32 cpu gicrWaker (gicrR32 s.gic cpu gicrWaker &&& (allOnes ^^^ 1 <<< 1))

def initGichV3 (s : Controller) (cpu : Nat) : Controller :=
  { s with
    icc := Function.update s.icc cpu { s.icc cpu with ichVmcrEl2 := 1 <<< 1, ichHcrEl2 := 1 <<< 0 }
    lrMax := ((s.icc cpu).ichVtrEl2 &&& 0x1f) + 1 }

def initGicv3Percpu (s : Controller) (cpu : Nat) : Controller :=
  initGichV3 (initGicrV3 (initGiccV3 s cpu) cpu) cpu

def gicv3Init (s : Controller) (cpu : Nat) : Controller := initGicv3Percpu (initGicdV3 s) cpu

/-- `ITLinesNumber`. -/
def itLines (s : Controller) : Nat := gicdR s.gic gicdTyper &&& 0x1f

section Distributor

theorem gicdW_plain (s : Controller) {offset : Nat} (h : offset < 0x100 ∨ 0x300 ≤ offset) (val : Nat) :
    s.gicdW offset val =
      { s with gic := { s.gic with
          gicd := store s.gic.gicd offset 4 val
          writes := (.gicd offset, val) :: s.gic.writes } } := by
  rw [Controller.gicdW, if_neg (by omega), if_neg (by omega), Gic.gicdW, if_neg (by omega), if_neg (by omega)]

theorem foldl_plain {addr : Nat → Nat} (v : Nat) {regs : List Nat} (s : Controller)
    (h : ∀ i ∈ regs, addr i < 0x100 ∨ 0x300 ≤ addr i) :
    regs.foldl (fun s i => s.gicdW (addr i) v) s =
      { s with gic := { s.gic with
          gicd := writeAll s.gic.gicd addr v regs
          writes := (regs.map fun i => (.gicd (addr i), v)).reverse ++ s.gic.writes } } := by
  induction regs generalizing s with
  | nil => rfl
  | cons i regs ih =>
    rw [List.foldl_cons, ih _ fun j hj => h j (List.mem_cons_of_mem _ hj), gicdW_plain s (h i List.mem_cons_self),
      List.map_cons, List.reverse_cons, List.append_assoc]
    rfl

def clearAll (state : Nat → Bool) (regs : List Nat) : Nat → Bool :=
  regs.foldl (fun state i => clearEnables state i allOnes) state

theorem testBit_allOnes {i : Nat} (hi : i < 32) : allOnes.testBit i = true := by
  rw [show allOnes = 2 ^ 32 - 1 from rfl, Nat.testBit_two_pow_sub_one]
  exact decide_eq_true hi

theorem clearAll_eq (state : Nat → Bool) (regs : List Nat) (m : Nat) :
    clearAll state regs m = (state m && !decide (m / 32 ∈ regs)) := by
  have hOnes : allOnes.testBit (m % 32) = true := testBit_allOnes (Nat.mod_lt m (by decide))
  induction regs generalizing state with
  | nil => simp [clearAll]
  | cons i regs ih =>
    rw [clearAll, List.foldl_cons, ← clearAll, ih, clearEnables]
    by_cases hi : m / 32 = i
    · simp [hi, hOnes]
    · simp [hi]

theorem clearStep (s : Controller) {i : Nat} (hi : i < 32) :
    (s.gicdW (gicdIcenabler i) allOnes).gicdW (gicdIcpendr i) allOnes =
      { s with
        gic := { s.gic with
          spiEnabled := clearEnables s.gic.spiEnabled i allOnes
          writes := (.gicd (gicdIcpendr i), allOnes) :: (.gicd (gicdIcenabler i), allOnes) :: s.gic.writes }
        spiPending := clearEnables s.spiPending i allOnes } := by
  have hEnable : gicdIcenabler i % 0x80 / 4 = i := by
    rw [gicdIcenabler]
    omega
  have hPend : gicdIcpendr i % 0x80 / 4 = i := by
    rw [gicdIcpendr]
    omega
  have hFirst : s.gicdW (gicdIcenabler i) allOnes =
      { s with gic := { s.gic with
          spiEnabled := clearEnables s.gic.spiEnabled i allOnes
          writes := (.gicd (gicdIcenabler i), allOnes) :: s.gic.writes } } := by
    rw [Controller.gicdW, if_neg (by rw [gicdIcenabler]; omega), if_neg (by rw [gicdIcenabler]; omega), Gic.gicdW,
      if_neg (by rw [gicdIcenabler]; omega), if_pos (by rw [gicdIcenabler]; omega), hEnable]
  rw [hFirst, Controller.gicdW, if_neg (by rw [gicdIcpendr]; omega), if_pos (by rw [gicdIcpendr]; omega), hPend]
  rfl

theorem foldl_clear {regs : List Nat} (s : Controller) (h : ∀ i ∈ regs, i < 32) :
    regs.foldl (fun s i => (s.gicdW (gicdIcenabler i) allOnes).gicdW (gicdIcpendr i) allOnes) s =
      { s with
        gic := { s.gic with
          spiEnabled := clearAll s.gic.spiEnabled regs
          writes := (regs.flatMap fun i =>
            [(.gicd (gicdIcenabler i), allOnes), (.gicd (gicdIcpendr i), allOnes)]).reverse ++ s.gic.writes }
        spiPending := clearAll s.spiPending regs } := by
  induction regs generalizing s with
  | nil => rfl
  | cons i regs ih =>
    rw [List.foldl_cons, ih _ fun j hj => h j (List.mem_cons_of_mem _ hj), clearStep s (h i List.mem_cons_self),
      List.flatMap_cons, List.reverse_append, List.append_assoc]
    rfl

/-- The registers of a file that the loops reach with `n` = `ITLinesNumber`, at `k` registers for 32 interrupts. -/
def spiRegs (k n : Nat) : List Nat := List.range' k (k * n)

theorem mem_spiRegs {k n i : Nat} : i ∈ spiRegs k n ↔ k ≤ i ∧ i < k * (n + 1) := by
  rw [spiRegs, List.mem_range'_1, Nat.mul_succ, Nat.add_comm k]

theorem itLines_lt (s : Controller) : itLines s < 32 := Nat.lt_succ_of_le Nat.and_le_right

theorem forRegs_spiRegs {k n stop : Nat} (hStop : stop = k * (n + 1)) (body : Controller → Nat → Controller)
    (s : Controller) : forRegs k stop body s = (spiRegs k n).foldl body s := by
  have hCount : stop - k = k * n := by
    rw [hStop, Nat.mul_succ, Nat.add_sub_cancel]
  rw [forRegs, hCount, spiRegs]

/-- A state with other plain registers of the distributor and the writes that led there. -/
def Controller.setGicd (s : Controller) (m : Mem) (writes : List (RegAddr × Nat)) : Controller :=
  { s with gic := { s.gic with gicd := m, writes := writes ++ s.gic.writes } }

def regWrites (addr : Nat → Nat) (v : Nat) (regs : List Nat) : List (RegAddr × Nat) :=
  (regs.map fun i => (.gicd (addr i), v)).reverse

def clearWrites (regs : List Nat) : List (RegAddr × Nat) :=
  (regs.flatMap fun i => [(.gicd (gicdIcenabler i), allOnes), (.gicd (gicdIcpendr i), allOnes)]).reverse

section
variable {s : Controller} {n : Nat} (hNum : s.spiNum = (n + 1) * 32)
include hNum

theorem disableSpis_eq (hn : n < 32) : disableSpis s =
    { s with
      gic := { s.gic with
        spiEnabled := clearAll s.gic.spiEnabled (spiRegs 1 n)
        writes := clearWrites (spiRegs 1 n) ++ s.gic.writes }
      spiPending := clearAll s.spiPending (spiRegs 1 n) } := by
  rw [disableSpis, forRegs_spiRegs (k := 32 / 32) (n := n) (by omega)]
  apply foldl_clear
  intro i hi
  rw [mem_spiRegs] at hi
  omega

theorem prioritiseSpis_eq : prioritiseSpis s =
    s.setGicd (writeAll s.gic.gicd gicdIpriorityr gicIntDefPrio (spiRegs 8 n))
      (regWrites gicdIpriorityr gicIntDefPrio (spiRegs 8 n)) := by
  rw [prioritiseSpis, forRegs_spiRegs (k := 32 / 4) (n := n) (by omega)]
  apply foldl_plain
  intro i _
  rw [gicdIpriorityr]
  omega

theorem levelSpis_eq : levelSpis s =
    s.setGicd (writeAll s.gic.gicd gicdIcfgr 0 (spiRegs 2 n)) (regWrites gicdIcfgr 0 (spiRegs 2 n)) := by
  rw [levelSpis, forRegs_spiRegs (k := 32 / 16) (n := n) (by omega)]
  apply foldl_plain
  intro i _
  rw [gicdIcfgr]
  omega

theorem routeSpis_eq : routeSpis s =
    s.setGicd (writeAll s.gic.gicd gicdIrouter 0 (spiRegs 32 n)) (regWrites gicdIrouter 0 (spiRegs 32 n)) := by
  rw [routeSpis, forRegs_spiRegs (n := n) (by omega)]
  apply foldl_plain
  intro i _
  rw [gicdIrouter]
  omega

end

theorem groupSpis_eq (s : Controller) {typer n : Nat} (hTyper : typer &&& 0x1f = n) (hn : n < 32) : groupSpis typer s =
    s.setGicd (writeAll s.gic.gicd gicdIgroupr allOnes (List.range n))
      (regWrites gicdIgroupr allOnes (List.range n)) := by
  rw [groupSpis, hTyper, forRegs, Nat.sub_zero, ← List.range_eq_range']
  apply foldl_plain
  intro i hi
  rw [List.mem_range] at hi
  rw [gicdIgroupr]
  omega

/-- What the initialisation leaves in the distributor's plain registers. -/
def distributed (m : Mem) (n first last : Nat) : Mem :=
  let m := store m gicdCtlr 4 first
  let m := writeAll m gicdIpriorityr gicIntDefPrio (spiRegs 8 n)
  let m := writeAll m gicdIcfgr 0 (spiRegs 2 n)
  let m := writeAll m gicdIrouter 0 (spiRegs 32 n)
  let m := writeAll m gicdIgroupr allOnes (List.range n)
  store m gicdCtlr 4 last

/-- The writes of the initialisation to the distributor, latest first. -/
def distributorWrites (n first last : Nat) : List (RegAddr × Nat) :=
  (.gicd gicdCtlr, last) :: (regWrites gicdIgroupr allOnes (List.range n) ++ (regWrites gicdIrouter 0 (spiRegs 32 n) ++
    (regWrites gicdIcfgr 0 (spiRegs 2 n) ++ (regWrites gicdIpriorityr gicIntDefPrio (spiRegs 8 n) ++
      (clearWrites (spiRegs 1 n) ++ [(.gicd gicdCtlr, first)])))))

theorem initGicdV3_eq (s : Controller) : ∃ first last, initGicdV3 s =
    { s with
      gic := { s.gic with
        gicd := distributed s.gic.gicd (itLines s) first last
        spiEnabled := clearAll s.gic.spiEnabled (spiRegs 1 (itLines s))
        writes := distributorWrites (itLines s) first last ++ s.gic.writes }
      spiPending := clearAll s.spiPending (spiRegs 1 (itLines s))
      spiNum := (itLines s + 1) * 32 } := by
  generalize hFirst : gicdR s.gic gicdCtlr &&& (allOnes ^^^ 3) = first
  have hTyper : gicdR (s.gicdW gicdCtlr first).gic gicdTyper &&& 0x1f = itLines s := by
    rw [gicdW_plain s (.inl (by decide)), itLines, gicdR, gicdR, if_neg (by decide), if_neg (by decide)]
    rw [load_store_of_disjoint (.inr (by decide))]
  have hRun : ∀ last, (groupSpis (gicdR (s.gicdW gicdCtlr first).gic gicdTyper) (routeSpis (levelSpis (prioritiseSpis
      (disableSpis { s.gicdW gicdCtlr first with spiNum := (itLines s + 1) * 32 }))))).gicdW gicdCtlr last =
      { s with
        gic := { s.gic with
          gicd := distributed s.gic.gicd (itLines s) first last
          spiEnabled := clearAll s.gic.spiEnabled (spiRegs 1 (itLines s))
          writes := distributorWrites (itLines s) first last ++ s.gic.writes }
        spiPending := clearAll s.spiPending (spiRegs 1 (itLines s))
        spiNum := (itLines s + 1) * 32 } := by
    intro last
    rw [groupSpis_eq _ hTyper (itLines_lt s), disableSpis_eq (n := itLines s) rfl (itLines_lt s),
      prioritiseSpis_eq (n := itLines s) rfl, levelSpis_eq (n := itLines s) rfl, routeSpis_eq (n := itLines s) rfl,
      gicdW_plain _ (.inl (by decide)), gicdW_plain s (.inl (by decide))]
    simp only [Controller.setGicd, distributed, distributorWrites, List.cons_append, List.append_assoc, List.nil_append]
  rw [initGicdV3]
  dsimp only
  rw [hFirst, hTyper, hRun]
  exact ⟨first, _, rfl⟩

/-- Each loop leaves words outside its register file alone. -/
theorem load_group {n : Nat} (hn : n < 32) (m : Mem) {a : Nat} (h : 0x100 ≤ a) :
    load (writeAll m gicdIgroupr allOnes (List.range n)) a 4 = load m a 4 := by
  apply writeAll_of_apart
  intro i hi
  rw [List.mem_range] at hi
  rw [gicdIgroupr]
  omega

theorem load_prio {n : Nat} (hn : n < 32) (m : Mem) {a : Nat} (h : a + 4 ≤ 0x400 ∨ 0x800 ≤ a) :
    load (writeAll m gicdIpriorityr gicIntDefPrio (spiRegs 8 n)) a 4 = load m a 4 := by
  apply writeAll_of_apart
  intro i hi
  rw [mem_spiRegs] at hi
  rw [gicdIpriorityr]
  omega

theorem load_level {n : Nat} (hn : n < 32) (m : Mem) {a : Nat} (h : a + 4 ≤ 0xc00 ∨ 0xd00 ≤ a) :
    load (writeAll m gicdIcfgr 0 (spiRegs 2 n)) a 4 = load m a 4 := by
  apply writeAll_of_apart
  intro i hi
  rw [mem_spiRegs] at hi
  rw [gicdIcfgr]
  omega

theorem load_route {n : Nat} (m : Mem) {a : Nat} (h : a + 4 ≤ 0x6000) :
    load (writeAll m gicdIrouter 0 (spiRegs 32 n)) a 4 = load m a 4 := by
  apply writeAll_of_apart
  intro i _
  rw [gicdIrouter]
  omega

section
variable (m : Mem) {n : Nat} (hn : n < 32) (first last : Nat)
include hn

theorem distributed_group {k : Nat} (hk : k < 32) : load (distributed m n first last) (gicdIgroupr k) 4 =
    if k < n then allOnes else load m (gicdIgroupr k) 4 := by
  have hAddr : 4 ≤ gicdIgroupr k ∧ gicdIgroupr k + 4 ≤ 0x100 := by
    rw [gicdIgroupr]
    omega
  rw [distributed]
  rw [load_store_of_disjoint (.inr hAddr.1)]
  split
  · rename_i hIn
    apply writeAll_of_mem _ _ (by decide) (List.mem_range.mpr hIn)
    intro i j hNe
    rw [gicdIgroupr, gicdIgroupr]
    omega
  · rename_i hOut
    have hApart : ∀ i ∈ List.range n, gicdIgroupr k + 4 ≤ gicdIgroupr i ∨
        gicdIgroupr i + 4 ≤ gicdIgroupr k := by
      intro i hi
      rw [List.mem_range] at hi
      rw [gicdIgroupr, gicdIgroupr]
      omega
    rw [writeAll_of_apart _ _ hApart, load_route _ (by omega), load_level hn _ (by omega), load_prio hn _ (by omega),
      load_store_of_disjoint (.inr hAddr.1)]

theorem distributed_prio {k : Nat} (hk : k ∈ spiRegs 8 n) :
    load (distributed m n first last) (gicdIpriorityr k) 4 = gicIntDefPrio := by
  have hAddr : 0x400 ≤ gicdIpriorityr k ∧ gicdIpriorityr k + 4 ≤ 0x800 := by
    rw [mem_spiRegs] at hk
    rw [gicdIpriorityr]
    omega
  rw [distributed]
  rw [load_store_of_disjoint (.inr (by rw [gicdCtlr]; omega)), load_group hn _ (by omega), load_route _ (by omega),
    load_level hn _ (by omega)]
  apply writeAll_of_mem _ _ (by decide) hk
  intro i j hNe
  rw [gicdIpriorityr, gicdIpriorityr]
  omega

theorem distributed_level {k : Nat} (hk : k ∈ spiRegs 2 n) :
    load (distributed m n first last) (gicdIcfgr k) 4 = 0 := by
  have hAddr : 0xc00 ≤ gicdIcfgr k ∧ gicdIcfgr k + 4 ≤ 0xd00 := by
    rw [mem_spiRegs] at hk
    rw [gicdIcfgr]
    omega
  rw [distributed]
  rw [load_store_of_disjoint (.inr (by rw [gicdCtlr]; omega)), load_group hn _ (by omega), load_route _ (by omega)]
  apply writeAll_of_mem _ _ (by decide) hk
  intro i j hNe
  rw [gicdIcfgr, gicdIcfgr]
  omega

theorem distributed_route {k : Nat} (hk : k ∈ spiRegs 32 n) :
    load (distributed m n first last) (gicdIrouter k) 4 = 0 ∧
      load (distributed m n first last) (gicdIrouter k + 4) 4 = load m (gicdIrouter k + 4) 4 := by
  have hAddr : 0x6000 ≤ gicdIrouter k := by
    rw [gicdIrouter]
    omega
  rw [distributed]
  constructor
  · rw [load_store_of_disjoint (.inr (by rw [gicdCtlr]; omega)), load_group hn _ (by omega)]
    apply writeAll_of_mem _ _ (by decide) hk
    intro i j hNe
    rw [gicdIrouter, gicdIrouter]
    omega
  · -- the upper half of a routing register is not written
    have hHigh : ∀ i ∈ spiRegs 32 n, gicdIrouter k + 4 + 4 ≤ gicdIrouter i ∨
        gicdIrouter i + 4 ≤ gicdIrouter k + 4 := by
      intro i _
      rw [gicdIrouter, gicdIrouter]
      omega
    rw [load_store_of_disjoint (.inr (by rw [gicdCtlr]; omega)), load_group hn _ (by omega),
      writeAll_of_apart _ _ hHigh,
      load_level hn _ (by omega), load_prio hn _ (by omega), load_store_of_disjoint (.inr (by rw [gicdCtlr]; omega))]

end

end Distributor

end HyperPoc.Gic.Init
