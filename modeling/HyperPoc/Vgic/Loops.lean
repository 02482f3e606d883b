import HyperPoc.Vgic.Wiring

/-! # What the loops of the handlers do

The assignments of a loop change the record of each interrupt at most once. The same loop drives the
physical controller, which it does not read for the assignments.
-/
namespace HyperPoc.Vgic
open Library.Memory Library.Packing Library.Run Library.LastWrite Gic
set_option autoImplicit false

def assign (s : Hypervisor) (r : IrqRef) : Option IrqWrite → Hypervisor
  | none => s
  | some a => writeIrq s a r

def changed (c : VgicIrq) : Option IrqWrite → VgicIrq
  | none => c
  | some a => a.change c

def assignAll (refs : Nat → IrqRef) (a : Nat → Option IrqWrite) (n : Nat) (s : Hypervisor) : Hypervisor :=
  (List.range n).foldl (fun s i => assign s (refs i) (a i)) s

def enableWrites (val : Nat) (on : Bool) (i : Nat) : Option IrqWrite :=
  if val.testBit i then some (.enabled on) else none
def priorityWrites (val i : Nat) : Option IrqWrite := some (.priority (val >>> (i * 8) &&& 0xff))
def targetWrites (val i : Nat) : Option IrqWrite := some (.target (val >>> (i * 8) &&& 0xff))

def switchOne (g : PhysGic) (cpu irq : Nat) (on : Bool) : PhysGic :=
  if on then gicIrqEnable g cpu irq else gicIrqDisable g cpu irq

/-- The calls of `gic_irq_enable` or `gic_irq_disable` for the 1s of `val`. -/
def switchAll (g : PhysGic) (cpu m val : Nat) (on : Bool) : PhysGic :=
  (List.range 32).foldl (fun g i => if val.testBit i then switchOne g cpu (m + i) on else g) g

def retargetAll (g : PhysGic) (spiNum cpu m val : Nat) : PhysGic :=
  (List.range 4).foldl (fun g i => gicSetTargetByPeField g spiNum cpu (m + i) (val >>> (i * 8) &&& 0xff)) g

theorem sameWires_assign (s : Hypervisor) (r : IrqRef) (a : Option IrqWrite) : SameWires s (assign s r a) := by
  cases a with
  | none => exact ⟨rfl, rfl, rfl⟩
  | some a => exact sameWires_writeIrq s a r

theorem sameWires_assignAll (refs : Nat → IrqRef) (a : Nat → Option IrqWrite) (n : Nat) (s : Hypervisor) :
    SameWires s (assignAll refs a n s) :=
  List.foldlRecOn _ _ ⟨rfl, rfl, rfl⟩ fun s' hSame i _ => hSame.trans (sameWires_assign s' (refs i) (a i))

@[simp] theorem changed_priorityWrites (c : VgicIrq) (val i : Nat) :
    changed c (priorityWrites val i) = { c with priority := val / 256 ^ i % 256 } := by
  rw [priorityWrites, changed, IrqWrite.change, shift_byte, Nat.mod_mod]

@[simp] theorem changed_targetWrites (c : VgicIrq) (val i : Nat) :
    changed c (targetWrites val i) = { c with target := val / 256 ^ i % 256 } := by
  rw [targetWrites, changed, IrqWrite.change, shift_byte, Nat.mod_mod]

@[simp] theorem changed_enableWrites (c : VgicIrq) (val i : Nat) (on : Bool) :
    changed c (enableWrites val on i) = { c with enabled := if val.testBit i then on else c.enabled } := by
  rw [enableWrites]
  cases val.testBit i <;> rfl

/-- The record of INTID `m'` for vcpu `k'` is one of the `n` records from `m` on for vcpu `k`. -/
def InLoop (k m n k' m' : Nat) : Prop := m ≤ m' ∧ m' < m + n ∧ (m' < 32 → k' = k)

instance (k m n k' m' : Nat) : Decidable (InLoop k m n k' m') := inferInstanceAs (Decidable (_ ∧ _ ∧ _))

section
variable {w : Wiring} {s : Hypervisor} {k k' m m' n : Nat}

theorem irq_assign {s₀ : Hypervisor} (h : Wired w s₀) (hSame : SameWires s₀ s) (hk : k < w.nvcpu)
    (hk' : k' < w.nvcpu) (hm : m < 2 ^ 32) (hm' : m' < 2 ^ 32) (a : Option IrqWrite) :
    w.irq (assign s (w.ref (w.spis s₀) k m) a) k' m' =
      if SameIrq k' m' k m then changed (w.irq s k' m') a else w.irq s k' m' := by
  cases a with
  | none => exact (ite_self _).symm
  | some a =>
    rw [← hSame.spis (w := w)]
    exact irq_writeIrq (h.congr hSame) hk hk' hm hm' a

theorem irq_assignAll (h : Wired w s) (hk : k < w.nvcpu) (hk' : k' < w.nvcpu) (hn : m + n ≤ 2 ^ 32)
    (hm' : m' < 2 ^ 32) (a : Nat → Option IrqWrite) :
    w.irq (assignAll (fun i => w.ref (w.spis s) k (m + i)) a n s) k' m' =
      if InLoop k m n k' m' then changed (w.irq s k' m') (a (m' - m)) else w.irq s k' m' := by
  have hFold : w.irq (assignAll (fun i => w.ref (w.spis s) k (m + i)) a n s) k' m' =
      (List.range n).foldl (fun c i => if SameIrq k' m' k (m + i) then changed c (a i) else c) (w.irq s k' m') := by
    apply get_foldl (g := fun s => w.irq s k' m') (I := SameWires s)
    · intro i hi s' hSame
      have hLt := List.mem_range.mp hi
      exact ⟨hSame.trans (sameWires_assign _ _ _), irq_assign h hSame hk hk' (by omega) hm' (a i)⟩
    · exact ⟨rfl, rfl, rfl⟩
  rw [hFold, foldl_range_single (k := m' - m)]
  · split
    · rename_i hLt
      have hIff : SameIrq k' m' k (m + (m' - m)) ↔ InLoop k m n k' m' := by
        simp only [SameIrq, InLoop]
        constructor
        · rintro ⟨hEq, hCpu⟩
          exact ⟨by omega, by omega, hCpu⟩
        · rintro ⟨hLow, _, hCpu⟩
          exact ⟨by omega, hCpu⟩
      simp only [hIff]
    · rename_i hGe
      rw [if_neg]
      rintro ⟨_, hTop, _⟩
      omega
  · intro i hi c
    rw [if_neg]
    rintro ⟨hEq, _⟩
    omega

theorem foldl_board (f : Hypervisor → Nat → Hypervisor) (g : PhysGic → Nat → PhysGic) (l : List Nat)
    (b : Board) :
    l.foldl (fun b i => { b with hv := f b.hv i, gic := g b.gic i }) b =
      { b with hv := l.foldl f b.hv, gic := l.foldl g b.gic } := by
  induction l generalizing b with
  | nil => rfl
  | cons i l ih => rw [List.foldl_cons, ih, List.foldl_cons, List.foldl_cons]

/-- On a wired VM a loop returns if its body does, and its two effects come apart. -/
theorem writeLoop_eq {b : Board} (h : Wired w b.hv) (hk : k < w.nvcpu) (m n : Nat)
    {body : Board → Nat → Option IrqRef → Outcome Board} {a : Nat → Option IrqWrite}
    {g : PhysGic → Nat → PhysGic} (hBody : ∀ (b' : Board) (i : Nat) (r : IrqRef), b'.spiNum = b.spiNum →
      body b' i (some r) = .ok { b' with hv := assign b'.hv r (a i), gic := g b'.gic i }) :
    writeLoop n (w.vcpu k) (m : Int) body b =
      .ok { b with
        hv := assignAll (fun i => w.ref (w.spis b.hv) k (m + i)) a n b.hv
        gic := (List.range n).foldl g b.gic } := by
  rw [writeLoop, foldlM_eq_foldl (I := fun b' => SameWires b.hv b'.hv ∧ b'.spiNum = b.spiNum)
    (f := fun b' i => { b' with hv := assign b'.hv (w.ref (w.spis b.hv) k (m + i)) (a i), gic := g b'.gic i }),
    foldl_board (fun s i => assign s (w.ref (w.spis b.hv) k (m + i)) (a i)) g]
  · rfl
  · rintro i _ b' ⟨hSame, hSpi⟩
    have hGet := (h.congr hSame).vgicIrqGet hk (m + i)
    rw [hSame.spis, Int.natCast_add] at hGet
    refine ⟨bind_eq_ok.mpr ⟨_, hGet, hBody b' i _ hSpi⟩, hSame.trans (sameWires_assign _ _ _), hSpi⟩
  · exact ⟨⟨rfl, rfl, rfl⟩, rfl⟩

theorem readLoop_eq (h : Wired w s) (hk : k < w.nvcpu) (m n : Nat) (term : Nat → VgicIrq → Nat) :
    readLoop n s (w.vcpu k) (m : Int) term = .ok (orUpTo (fun i => term i (w.irq s k (m + i))) n) := by
  rw [readLoop, foldlM_eq_foldl (I := fun _ => True) (f := fun v i => v ||| term i (w.irq s k (m + i))), foldl_or]
  · intro i _ v _
    have hGet := h.vgicIrqGet hk (m + i)
    rw [Int.natCast_add] at hGet
    rw [hGet]
    exact ⟨rfl, trivial⟩
  · trivial

end

theorem irq_lt (w : Wiring) (s : Hypervisor) (k m : Nat) : (w.irq s k m).priority < 256 ∧
    (w.irq s k m).target < 256 := by
  rw [Wiring.irq]
  cases w.ref (w.spis s) k m with
  | cpu g bank i => exact ⟨Nat.mod_lt _ (by decide), Nat.mod_lt _ (by decide)⟩
  | mem a => exact ⟨UInt8.toNat_lt _, UInt8.toNat_lt _⟩

theorem shifted_byte_mod {c i : Nat} (hc : c < 256) (hi : i < 4) : c <<< (i * 8) % 2 ^ 32 = c <<< (8 * i) := by
  have hPow : 2 ^ (8 * i) ≤ 2 ^ 24 := Nat.pow_le_pow_right (by decide) (by omega)
  rw [Nat.mul_comm, Nat.mod_eq_of_lt]
  rw [Nat.shiftLeft_eq]
  calc c * 2 ^ (8 * i) ≤ 255 * 2 ^ 24 := Nat.mul_le_mul (Nat.le_of_lt_succ hc) hPow
    _ < 2 ^ 32 := by decide

theorem enableTerm_mod (irq : VgicIrq) {i : Nat} (hi : i < 32) :
    enableTerm i irq % 2 ^ 32 = if irq.enabled then 2 ^ i else 0 := by
  rw [enableTerm]
  split
  · rw [sext32_mod, Nat.shiftLeft_eq, Nat.one_mul, Nat.mod_eq_of_lt (Nat.pow_lt_pow_right (by decide) hi)]
  · rfl

/-- Nothing has changed but one vgic cpu. -/
structure OnlyVgicCpu (g : Nat) (s s' : Hypervisor) : Prop where
  rest : s' = { s with vgicCpus := s'.vgicCpus }
  others : ∀ g', g' ≠ g → s'.vgicCpus g' = s.vgicCpus g'

theorem OnlyVgicCpu.trans {g : Nat} {s s' s'' : Hypervisor} (h : OnlyVgicCpu g s s') (h' : OnlyVgicCpu g s' s'') :
    OnlyVgicCpu g s s'' := by
  refine ⟨?_, fun g' hg => (h'.others g' hg).trans (h.others g' hg)⟩
  have hRest := h'.rest
  rw [h.rest] at hRest
  exact hRest

section
variable (w : Wiring) (s : Hypervisor) (k spis : Nat)

/-- SGIs and PPIs of a vcpu are all in one vgic cpu. -/
theorem assign_private {m : Nat} (hm : m < 32) (a : Option IrqWrite) :
    OnlyVgicCpu (w.vgicCpu k) s (assign s (w.ref spis k m) a) := by
  cases a with
  | none => exact ⟨rfl, fun _ _ => rfl⟩
  | some a =>
    rw [Wiring.ref]
    split
    · exact ⟨rfl, fun g hg => Function.update_of_ne hg _ _⟩
    · exact ⟨rfl, fun g hg => Function.update_of_ne hg _ _⟩

theorem assignAll_private {m n : Nat} (hn : m + n ≤ 32) (a : Nat → Option IrqWrite) :
    OnlyVgicCpu (w.vgicCpu k) s (assignAll (fun i => w.ref spis k (m + i)) a n s) := by
  apply List.foldlRecOn
  · exact ⟨rfl, fun _ _ => rfl⟩
  · intro s' h i hi
    have hLt := List.mem_range.mp hi
    exact h.trans (assign_private w s' k spis (by omega) (a i))

end

section
variable {w : Wiring} {b : Board} {k : Nat}

theorem isSgiPpi_or_isSpi (m : Nat) : (isSgiPpi (m : Int) || isSpi (m : Int)) = true := by
  simp only [isSgiPpi, isSgi, isPpi, isSpi, Bool.or_eq_true, Bool.and_eq_true, decide_eq_true_eq]
  omega

theorem writeEnables_eq (h : Wired w b.hv) (hk : k < w.nvcpu) (cpu m val : Nat) (on : Bool) :
    writeEnables b cpu (w.vcpu k) (m : Int) val on =
      .ok { b with
        hv := assignAll (fun i => w.ref (w.spis b.hv) k (m + i)) (enableWrites val on) 32 b.hv
        gic := switchAll b.gic cpu m val on } := by
  apply writeLoop_eq h hk
  intro b' i r _
  have hValid := isSgiPpi_or_isSpi (m + i)
  rw [Int.natCast_add] at hValid
  have hNat : ((m : Int) + i).toNat = m + i := by omega
  cases hBit : val.testBit i with
  | false =>
    simp [enableWrites, assign, hBit]
  | true =>
    cases on with
    | false =>
      simp [enableWrites, assign, hBit, deref, vgicIrqDisable, hValid, hNat, switchOne, Board.writeIrq, bind,
        Except.bind]
    | true =>
      simp [enableWrites, assign, hBit, deref, vgicIrqEnable, hValid, hNat, switchOne, Board.writeIrq, bind,
        Except.bind]

theorem writePriorities_eq (h : Wired w b.hv) (hk : k < w.nvcpu) (m val : Nat) :
    writePriorities b (w.vcpu k) (m : Int) val =
      .ok { b with hv := assignAll (fun i => w.ref (w.spis b.hv) k (m + i)) (priorityWrites val) 4 b.hv } :=
  writeLoop_eq (g := fun g _ => g) h hk m 4 fun _ _ _ _ => rfl

theorem writeTargets_eq (h : Wired w b.hv) (hk : k < w.nvcpu) (cpu : Nat) {m : Nat} (hm : 32 ≤ m) (val : Nat) :
    writeTargets b cpu (w.vcpu k) (m : Int) val =
      .ok { b with
        hv := assignAll (fun i => w.ref (w.spis b.hv) k (m + i)) (targetWrites val) 4 b.hv
        gic := retargetAll b.gic b.spiNum cpu m val } := by
  apply writeLoop_eq h hk
  intro b' i r hSpi
  have hIsSpi : isSpi ((m : Int) + i) = true := by
    rw [isSpi, decide_eq_true_eq]
    omega
  have hNat : ((m : Int) + i).toNat = m + i := by omega
  simp [targetWrites, assign, deref, hIsSpi, hSpi, hNat, Board.writeIrq, bind, Except.bind]

end

end HyperPoc.Vgic
