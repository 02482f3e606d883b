import HyperPoc.Vgic.Redistributor

/-! # Concurrent writes to the redistributors' enable registers

The redistributor handlers take no lock. A write is broken into the accesses of its rounds, the record
of the interrupt and the set-enable register of the executing cpu, and the accesses of all vcpus
interleave. Vcpu `j` runs on cpu `j`.
-/
namespace HyperPoc.Vgic
open Library.Run Gic
set_option autoImplicit false

/-- Where a vcpu is in a write of `val` to the set-enable (`on`) or clear-enable register of a frame. -/
inductive EnablePc
  | idle
  | round (frame : Nat) (on : Bool) (val i : Nat)
  | marked (frame : Nat) (on : Bool) (val i : Nat)
  | loaded (frame : Nat) (on : Bool) (val i word : Nat)

def EnablePc.frame : EnablePc → Option Nat
  | .idle => none
  | .round k _ _ _ | .marked k _ _ _ | .loaded k _ _ _ _ => some k

structure EnableSystem where
  board : Board
  pcs : Nat → EnablePc

def EnableSystem.go (x : EnableSystem) (j : Nat) (b : Board) (pc : EnablePc) : EnableSystem :=
  ⟨b, Function.update x.pcs j pc⟩

def editWord (on : Bool) (i word : Nat) : Nat :=
  if on then word ||| 1 <<< (i % 32) else word &&& (0xffffffff ^^^ 1 <<< (i % 32))

/-- One access of vcpu `j`. `allowed` says which vcpu may write which value to which frame. -/
inductive EnableStep (w : Wiring) (allowed : Nat → Nat → Nat → Prop) (j : Nat) :
    EnableSystem → EnableSystem → Prop
  | start {x : EnableSystem} {k val : Nat} (on : Bool) (hj : j < w.nvcpu) (hk : k < w.nvcpu)
    (hAllowed : allowed j k val)
      (hPc : x.pcs j = .idle) : EnableStep w allowed j x (x.go j x.board (.round k on val 0))
  | skip {x : EnableSystem} {k val i : Nat} {on : Bool} (hPc : x.pcs j = .round k on val i) (hi : i < 32)
      (hBit : val.testBit i = false) : EnableStep w allowed j x (x.go j x.board (.round k on val (i + 1)))
  | mark {x : EnableSystem} {k val i : Nat} {on : Bool} {r : IrqRef} (hPc : x.pcs j = .round k on val i) (hi : i < 32)
      (hBit : val.testBit i = true) (hGet : vgicIrqGet x.board.hv (w.vcpu k) (i : Int) = .ok (some r)) :
      EnableStep w allowed j x (x.go j (x.board.writeIrq r (.enabled on)) (.marked k on val i))
  | load {x : EnableSystem} {k val i : Nat} {on : Bool} (hPc : x.pcs j = .marked k on val i) :
      EnableStep w allowed j x (x.go j x.board (.loaded k on val i (gicrR32 x.board.gic j gicrIsenabler0)))
  | store {x : EnableSystem} {k val i word : Nat} {on : Bool} (hPc : x.pcs j = .loaded k on val i word) :
      EnableStep w allowed j x
        (x.go j { x.board with gic := gicrW32 x.board.gic j gicrIsenabler0 (editWord on i word) }
          (.round k on val (i + 1)))
  | finish {x : EnableSystem} {k val : Nat} {on : Bool} (hPc : x.pcs j = .round k on val 32) :
      EnableStep w allowed j x (x.go j x.board .idle)

def EnableRun (w : Wiring) (allowed : Nat → Nat → Nat → Prop) : EnableSystem → EnableSystem → Prop :=
  Relation.ReflTransGen fun x x' => ∃ j, EnableStep w allowed j x x'

/-- Only enable bits of vcpu `k` have changed, and the physical writes went to the redistributor of
cpu `k`. -/
structure ActsOnOwner (w : Wiring) (k : Nat) (b b' : Board) : Prop where
  shadow : ∀ k' m, k' < w.nvcpu → m < 2 ^ 32 → w.irq b'.hv k' m = w.irq b.hv k' m ∨
    k' = k ∧ m < 32 ∧ ∃ on, w.irq b'.hv k' m = { w.irq b.hv k' m with enabled := on }
  rest : OnlyVgicCpu (w.vgicCpu k) b.hv b'.hv
  writes : ∃ new, b'.gic.writes = new ++ b.gic.writes ∧ ∀ e ∈ new, ∃ offset, e.1 = .gicr k offset

section
variable {w : Wiring} {j k : Nat}

theorem ActsOnOwner.refl (w : Wiring) (k : Nat) (b : Board) : ActsOnOwner w k b b :=
  ⟨fun _ _ _ _ => .inl rfl, ⟨rfl, fun _ _ => rfl⟩, [], rfl, fun _ he => nomatch he⟩

theorem actsOnOwner_mark {b : Board} (h : Wired w b.hv) (hk : k < w.nvcpu) {i : Nat} (hi : i < 32) (on : Bool) :
    ActsOnOwner w k b (b.writeIrq (w.ref (w.spis b.hv) k i) (.enabled on)) := by
  refine ⟨?_, assign_private w b.hv k _ hi (some (.enabled on)), [], rfl, fun _ he => nomatch he⟩
  intro k' m hk' hm
  rw [Board.writeIrq, irq_writeIrq h hk hk' (by omega) hm]
  split
  · rename_i hSame
    obtain ⟨rfl, hCpu⟩ := hSame
    exact .inr ⟨hCpu hi, hi, on, rfl⟩
  · exact .inl rfl

theorem actsOnOwner_store (w : Wiring) (b : Board) (k val : Nat) :
    ActsOnOwner w k b { b with gic := gicrW32 b.gic k gicrIsenabler0 val } := by
  refine ⟨fun _ _ _ _ => .inl rfl, ⟨rfl, fun _ _ => rfl⟩, [(.gicr k gicrIsenabler0, val)], ?_, ?_⟩
  · rw [gicrW32_isenabler0]
    rfl
  · intro e he
    rw [List.mem_singleton.mp he]
    exact ⟨_, rfl⟩

/-- The vcpu programs its own frame, or the value carries no 1. -/
def OwnFrame (j k val : Nat) : Prop := j = k ∨ val % 2 ^ 32 = 0

theorem testBit_of_ownFrame {val i : Nat} (hOwn : OwnFrame j k val) (hi : i < 32) (hBit : val.testBit i = true) :
    j = k := by
  obtain hEq | hZero := hOwn
  · exact hEq
  · have hLow : (val % 2 ^ 32).testBit i = val.testBit i := by
      rw [Nat.testBit_mod_two_pow]
      simp [hi]
    rw [hZero, Nat.zero_testBit, hBit] at hLow
    cases hLow

/-- What holds of a vcpu inside a write. -/
def EnablePc.Ok (w : Wiring) (allowed : Nat → Nat → Nat → Prop) (j : Nat) : EnablePc → Prop
  | .idle => True
  | .round k _ val _ => k < w.nvcpu ∧ allowed j k val
  | .marked k _ val i | .loaded k _ val i _ => k < w.nvcpu ∧ allowed j k val ∧ i < 32 ∧ val.testBit i = true

structure EnableInv (w : Wiring) (allowed : Nat → Nat → Nat → Prop) (x : EnableSystem) : Prop where
  wired : Wired w x.board.hv
  pcs : ∀ j, (x.pcs j).Ok w allowed j

theorem EnableInv.go {allowed : Nat → Nat → Nat → Prop} {x : EnableSystem} (h : EnableInv w allowed x) {b : Board}
    (hSame : SameWires x.board.hv b.hv) {pc : EnablePc} (hPc : pc.Ok w allowed j) :
    EnableInv w allowed (x.go j b pc) := by
  refine ⟨h.wired.congr hSame, ?_⟩
  intro j'
  rw [EnableSystem.go]
  dsimp only
  obtain rfl | hNe := eq_or_ne j' j
  · rw [Function.update_self]
    exact hPc
  · rw [Function.update_of_ne hNe]
    exact h.pcs j'

theorem enableInv_step {allowed : Nat → Nat → Nat → Prop} {x x' : EnableSystem} (h : EnableInv w allowed x)
    (hStep : EnableStep w allowed j x x') : EnableInv w allowed x' := by
  have hPcs := h.pcs j
  cases hStep with
  | start on hj hk hAllowed hPc =>
    refine h.go ⟨rfl, rfl, rfl⟩ ?_
    exact ⟨hk, hAllowed⟩
  | skip hPc hi hBit =>
    rw [hPc] at hPcs
    exact h.go ⟨rfl, rfl, rfl⟩ hPcs
  | mark hPc hi hBit hGet =>
    rw [hPc] at hPcs
    refine h.go (sameWires_writeIrq _ _ _) ?_
    exact ⟨hPcs.1, hPcs.2, hi, hBit⟩
  | load hPc =>
    rw [hPc] at hPcs
    exact h.go ⟨rfl, rfl, rfl⟩ hPcs
  | store hPc =>
    rw [hPc] at hPcs
    refine h.go ?_ ?_
    · exact ⟨rfl, rfl, rfl⟩
    · exact ⟨hPcs.1, hPcs.2.1⟩
  | finish hPc =>
    refine h.go ⟨rfl, rfl, rfl⟩ ?_
    trivial

/-- In any interleaving of writes of vcpus to their own frames each access acts on the owner. -/
theorem enables_act_on_owner {x₀ x x' : EnableSystem} (h : Wired w x₀.board.hv) (hIdle : ∀ j, x₀.pcs j = .idle)
    (hRun : EnableRun w OwnFrame x₀ x) (hStep : EnableStep w OwnFrame j x x') :
    ((x.pcs j).frame = none → x'.board = x.board) ∧
      ∀ k, (x.pcs j).frame = some k → ActsOnOwner w k x.board x'.board := by
  have hInit : EnableInv w OwnFrame x₀ := by
    refine ⟨h, ?_⟩
    intro j
    rw [hIdle j]
    trivial
  have hInv : EnableInv w OwnFrame x := invariant (fun _ _ hInv ⟨_, hStep⟩ => enableInv_step hInv hStep) hInit hRun
  have hPcs := hInv.pcs j
  cases hStep with
  | start on hj hk hAllowed hPc =>
    rw [hPc]
    refine ⟨fun _ => rfl, ?_⟩
    rintro k ⟨⟩
  | skip hPc hi hBit =>
    rw [hPc]
    refine ⟨by rintro ⟨⟩, ?_⟩
    intro k hk
    exact .refl w k _
  | mark hPc hi hBit hGet =>
    rw [hPc] at hPcs ⊢
    refine ⟨by rintro ⟨⟩, ?_⟩
    rintro k ⟨⟩
    rw [hInv.wired.vgicIrqGet hPcs.1] at hGet
    cases hGet
    exact actsOnOwner_mark hInv.wired hPcs.1 hi _
  | load hPc =>
    rw [hPc]
    refine ⟨by rintro ⟨⟩, ?_⟩
    intro k hk
    exact .refl w k _
  | store hPc =>
    rw [hPc] at hPcs ⊢
    refine ⟨by rintro ⟨⟩, ?_⟩
    rintro k ⟨⟩
    obtain ⟨_, hOwn, hi, hBit⟩ := hPcs
    obtain rfl := testBit_of_ownFrame hOwn hi hBit
    exact actsOnOwner_store w x.board j _
  | finish hPc =>
    rw [hPc]
    refine ⟨by rintro ⟨⟩, ?_⟩
    intro k hk
    exact .refl w k _

/-- The board after the first `i` rounds of the handler's loop. -/
def afterRounds (w : Wiring) (b : Board) (j k val : Nat) (on : Bool) (i : Nat) : Board :=
  { b with
    hv := assignAll (fun i => w.ref (w.spis b.hv) k (0 + i)) (enableWrites val on) i b.hv
    gic := (List.range i).foldl (fun g i => if val.testBit i then switchOne g j (0 + i) on else g) b.gic }

theorem switchOne_local (g : PhysGic) (cpu : Nat) {i : Nat} (hi : i < 32) (on : Bool) :
    switchOne g cpu i on = gicrW32 g cpu gicrIsenabler0 (editWord on i (gicrR32 g cpu gicrIsenabler0)) := by
  have hLocal : ¬32 ≤ i := by omega
  cases on with
  | false => rw [switchOne, if_neg Bool.false_ne_true, gicIrqDisable, rewriteEnables, if_neg hLocal, editWord,
      if_neg Bool.false_ne_true]
  | true => rw [switchOne, if_pos rfl, gicIrqEnable, rewriteEnables, if_neg hLocal, editWord, if_pos rfl]

theorem afterRounds_succ (w : Wiring) (b : Board) (j k val : Nat) (on : Bool) (i : Nat) :
    afterRounds w b j k val on (i + 1) =
      { afterRounds w b j k val on i with
        hv := assign (afterRounds w b j k val on i).hv (w.ref (w.spis b.hv) k i) (enableWrites val on i)
        gic := if val.testBit i then switchOne (afterRounds w b j k val on i).gic j i on
          else (afterRounds w b j k val on i).gic } := by
  simp only [afterRounds, assignAll, List.range_succ, List.foldl_append, List.foldl_cons, List.foldl_nil, Nat.zero_add]

/-- All vcpus are where `pcs` says but for vcpu `j`. -/
def systemAt (b : Board) (pcs : Nat → EnablePc) (j : Nat) (pc : EnablePc) : EnableSystem :=
  ⟨b, Function.update pcs j pc⟩

theorem systemAt_pcs (b : Board) (pcs : Nat → EnablePc) (j : Nat) (pc : EnablePc) :
    (systemAt b pcs j pc).pcs j = pc :=
  Function.update_self _ _ _

theorem systemAt_go (b b' : Board) (pcs : Nat → EnablePc) (j : Nat) (pc pc' : EnablePc) :
    (systemAt b pcs j pc).go j b' pc' = systemAt b' pcs j pc' :=
  congrArg (EnableSystem.mk b') (Function.update_idem _ _ _)

section
variable {allowed : Nat → Nat → Nat → Prop} {b : Board} {val i : Nat} (on : Bool) (pcs : Nat → EnablePc)

theorem skip_step (hi : i < 32) (hBit : val.testBit i = false) :
    EnableStep w allowed j (systemAt b pcs j (.round k on val i)) (systemAt b pcs j (.round k on val (i + 1))) := by
  have hStep : EnableStep w allowed j (systemAt b pcs j (.round k on val i)) _ := .skip (systemAt_pcs _ _ _ _) hi hBit
  rwa [systemAt_go] at hStep

theorem mark_step {r : IrqRef} (hi : i < 32) (hBit : val.testBit i = true)
    (hGet : vgicIrqGet b.hv (w.vcpu k) (i : Int) = .ok (some r)) :
    EnableStep w allowed j (systemAt b pcs j (.round k on val i))
      (systemAt (b.writeIrq r (.enabled on)) pcs j (.marked k on val i)) := by
  have hStep : EnableStep w allowed j (systemAt b pcs j (.round k on val i)) _ :=
    .mark (systemAt_pcs _ _ _ _) hi hBit hGet
  rwa [systemAt_go] at hStep

theorem load_step : EnableStep w allowed j (systemAt b pcs j (.marked k on val i))
    (systemAt b pcs j (.loaded k on val i (gicrR32 b.gic j gicrIsenabler0))) := by
  have hStep : EnableStep w allowed j (systemAt b pcs j (.marked k on val i)) _ := .load (systemAt_pcs _ _ _ _)
  rwa [systemAt_go] at hStep

theorem store_step (word : Nat) : EnableStep w allowed j (systemAt b pcs j (.loaded k on val i word))
    (systemAt { b with gic := gicrW32 b.gic j gicrIsenabler0 (editWord on i word) } pcs j
      (.round k on val (i + 1))) := by
  have hStep : EnableStep w allowed j (systemAt b pcs j (.loaded k on val i word)) _ := .store (systemAt_pcs _ _ _ _)
  rwa [systemAt_go] at hStep

theorem finish_step : EnableStep w allowed j (systemAt b pcs j (.round k on val 32)) (systemAt b pcs j .idle) := by
  have hStep : EnableStep w allowed j (systemAt b pcs j (.round k on val 32)) _ := .finish (systemAt_pcs _ _ _ _)
  rwa [systemAt_go] at hStep

end

theorem round_runs {allowed : Nat → Nat → Nat → Prop} {b : Board} (h : Wired w b.hv) (hk : k < w.nvcpu)
    (val : Nat) (on : Bool) (pcs : Nat → EnablePc) {i : Nat} (hi : i < 32) :
    EnableRun w allowed (systemAt (afterRounds w b j k val on i) pcs j (.round k on val i))
      (systemAt (afterRounds w b j k val on (i + 1)) pcs j (.round k on val (i + 1))) := by
  have hSame : SameWires b.hv (afterRounds w b j k val on i).hv := sameWires_assignAll _ _ _ _
  rw [afterRounds_succ, enableWrites]
  generalize afterRounds w b j k val on i = c at hSame ⊢
  have hGet := (h.congr hSame).vgicIrqGet hk i
  rw [hSame.spis] at hGet
  cases hBit : val.testBit i with
  | false => exact .single ⟨j, skip_step on pcs hi hBit⟩
  | true =>
    rw [if_pos rfl, if_pos rfl, switchOne_local c.gic j hi on]
    exact ((Relation.ReflTransGen.single ⟨j, mark_step on pcs hi hBit hGet⟩).tail ⟨j, load_step on pcs⟩).tail
      ⟨j, store_step on pcs _⟩

/-- A handler that nobody interrupts is one of the interleavings. -/
theorem handler_runs {allowed : Nat → Nat → Nat → Prop} {b : Board} (h : Wired w b.hv) (hj : j < w.nvcpu)
    (hk : k < w.nvcpu) {val : Nat} (hAllowed : allowed j k val) (on : Bool) {pcs : Nat → EnablePc}
    (hIdle : pcs j = .idle) :
    ∃ b', vgicrMmioWrite b j (w.vcpu j) (k * gicrStride + gicrEnabler0 on) val = .ok (b', 0) ∧
      EnableRun w allowed ⟨b, pcs⟩ ⟨b', pcs⟩ := by
  refine ⟨afterRounds w b j k val on 32, vgicr_enabler0_write h hj hk j val on, ?_⟩
  have hRounds : ∀ i, i ≤ 32 → EnableRun w allowed ⟨b, pcs⟩
      (systemAt (afterRounds w b j k val on i) pcs j (.round k on val i)) := by
    intro i hi
    induction i with
    | zero => exact .single ⟨j, .start on hj hk hAllowed hIdle⟩
    | succ i ih => exact (ih (by omega)).trans (round_runs h hk val on pcs (by omega))
  have hEnd : systemAt (afterRounds w b j k val on 32) pcs j .idle = ⟨afterRounds w b j k val on 32, pcs⟩ := by
    rw [systemAt, ← hIdle, Function.update_eq_self]
  rw [← hEnd]
  exact (hRounds 32 (by omega)).tail ⟨j, finish_step on pcs⟩

end

/-- The small board when vcpu 1 has set the shadow bit of its SGI 0. -/
def markedBoard : Board := smallBoard.writeIrq (smallWiring.ref (smallWiring.spis smallBoard.hv) 1 0) (.enabled true)

theorem markedBoard_runs : EnableRun smallWiring OwnFrame ⟨smallBoard, fun _ => .idle⟩
    (systemAt markedBoard (fun _ => .idle) 1 (.loaded 1 true 1 0 (gicrR32 markedBoard.gic 1 gicrIsenabler0))) := by
  have hOwn : OwnFrame 1 1 1 := .inl rfl
  have hStart : EnableStep smallWiring OwnFrame 1 ⟨smallBoard, fun _ => .idle⟩
      (systemAt smallBoard (fun _ => .idle) 1 (.round 1 true 1 0)) := .start true (by decide) (by decide) hOwn rfl
  have hMark : EnableStep smallWiring OwnFrame 1 (systemAt smallBoard (fun _ => .idle) 1 (.round 1 true 1 0))
      (systemAt markedBoard (fun _ => .idle) 1 (.marked 1 true 1 0)) :=
    mark_step true _ (by decide) (by decide) (smallBoard_wired.vgicIrqGet (by decide) 0)
  exact ((Relation.ReflTransGen.single ⟨1, hStart⟩).tail ⟨1, hMark⟩).tail ⟨1, load_step true _⟩

/-- Vcpu 1 enables SGI 0 in its own frame; the step is its physical write. -/
theorem enables_act_on_owner_small : ∃ x x', EnableRun smallWiring OwnFrame ⟨smallBoard, fun _ => .idle⟩ x ∧
    EnableStep smallWiring OwnFrame 1 x x' ∧ x'.board.gic.writes = [(.gicr 1 0x10100, 1)] ∧
    ActsOnOwner smallWiring 1 x.board x'.board := by
  have hStore : EnableStep smallWiring OwnFrame 1
      (systemAt markedBoard (fun _ => .idle) 1 (.loaded 1 true 1 0 (gicrR32 markedBoard.gic 1 gicrIsenabler0))) _ :=
    store_step true (fun _ => .idle) _
  refine ⟨_, _, markedBoard_runs, hStore, by decide, ?_⟩
  exact (enables_act_on_owner smallBoard_wired (fun _ => rfl) markedBoard_runs hStore).2 1 rfl

/-- The small board after vcpu 0 has enabled the virtual timer in the frame of vcpu 1. -/
def crossedBoard : Board := afterRounds smallWiring smallBoard 0 1 0x8000000 true 32

theorem crossedBoard_hardware : crossedBoard.gic.writes = [(.gicr 0 0x10100, 0x8000000)] ∧
    crossedBoard.gic.enabled 0 27 = true ∧ crossedBoard.gic.enabled 1 27 = false := by
  decide +kernel

theorem crossedBoard_shadow : (smallWiring.irq crossedBoard.hv 1 27).enabled = true := by
  decide +kernel

/-- The shadow bit of vcpu 1 is set, the physical write goes to the redistributor of cpu 0. -/
theorem enables_act_on_wrong_cpu :
    ∃ b', vgicrMmioWrite smallBoard 0 (smallWiring.vcpu 0)
      (1 * gicrStride + gicrEnabler0 true) 0x8000000 = .ok (b', 0) ∧
      EnableRun smallWiring (fun _ _ _ => True) ⟨smallBoard, fun _ => .idle⟩ ⟨b', fun _ => .idle⟩ ∧
      (smallWiring.irq b'.hv 1 27).enabled = true ∧ b'.gic.writes = [(.gicr 0 0x10100, 0x8000000)] ∧
      b'.gic.enabled 0 27 = true ∧ b'.gic.enabled 1 27 = false ∧ ¬ActsOnOwner smallWiring 1 smallBoard b' := by
  obtain ⟨b', hWrite, hRun⟩ : ∃ b', vgicrMmioWrite smallBoard 0 (smallWiring.vcpu 0)
      (1 * gicrStride + gicrEnabler0 true) 0x8000000 = .ok (b', 0) ∧
      EnableRun smallWiring (fun _ _ _ => True) ⟨smallBoard, fun _ => .idle⟩ ⟨b', fun _ => .idle⟩ :=
    handler_runs smallBoard_wired (by decide) (by decide) trivial true rfl
  have hBoard : vgicrMmioWrite smallBoard 0 (smallWiring.vcpu 0) (1 * gicrStride + gicrEnabler0 true) 0x8000000 =
      .ok (crossedBoard, 0) := vgicr_enabler0_write smallBoard_wired (by decide) (by decide) 0 0x8000000 true
  cases hWrite.symm.trans hBoard
  obtain ⟨hWrites, hFirst, hSecond⟩ := crossedBoard_hardware
  refine ⟨crossedBoard, hBoard, hRun, crossedBoard_shadow, hWrites, hFirst, hSecond, ?_⟩
  intro hOwner
  obtain ⟨new, hNew, hAll⟩ := hOwner.writes
  rw [hWrites] at hNew
  change [(.gicr 0 0x10100, 0x8000000)] = new ++ [] at hNew
  rw [List.append_nil] at hNew
  obtain ⟨offset, hOffset⟩ := hAll (.gicr 0 0x10100, 0x8000000) (hNew ▸ List.mem_singleton_self _)
  cases hOffset

end HyperPoc.Vgic
