import HyperPoc.Library.A64

/-! # Frames of register pairs on the stack

Pairs of registers are pushed below the stack pointer and popped in the opposite order. What runs in
between may use all registers and the stack below the frame.
-/
namespace Library.A64
open Library.Memory
set_option autoImplicit false

/-- An operand: a general register or the zero register. -/
abbrev Operand := Option (Fin 31)

namespace Cpu

def get (c : Cpu) : Operand → Word
  | none => 0
  | some r => c.x r

def put (c : Cpu) (v : Word) : Operand → Cpu
  | none => c
  | some r => c.setX r v

/-- `stp a, b, [sp, #-16]!` -/
def push (c : Cpu) (p : Operand × Operand) : Cpu :=
  let sp := c.sp - 16
  { c with sp := sp, mem := storeWord (storeWord c.mem sp.toNat (c.get p.1)) (sp.toNat + 8) (c.get p.2) }

/-- `ldp a, b, [sp], #16` -/
def pop (c : Cpu) (p : Operand × Operand) : Cpu :=
  let first := word c.mem c.sp.toNat
  let second := word c.mem (c.sp.toNat + 8)
  (({ c with sp := c.sp + 16 }).put first p.1).put second p.2

def pushAll (c : Cpu) (ps : List (Operand × Operand)) : Cpu := ps.foldl push c

def popAll (c : Cpu) (ps : List (Operand × Operand)) : Cpu := ps.foldl pop c

end Cpu

/-- The registers of the pairs. -/
def registers (ps : List (Operand × Operand)) : List (Fin 31) := ps.flatMap fun p => p.1.toList ++ p.2.toList

section
variable {c d : Cpu} {ps : List (Operand × Operand)}

theorem pushAll_cons (c : Cpu) (p : Operand × Operand) (ps : List (Operand × Operand)) :
    c.pushAll (p :: ps) = (c.push p).pushAll ps := by
  rw [Cpu.pushAll, Cpu.pushAll, List.foldl_cons]

theorem popAll_concat (c : Cpu) (ps : List (Operand × Operand)) (p : Operand × Operand) :
    c.popAll (ps ++ [p]) = (c.popAll ps).pop p := by
  rw [Cpu.popAll, Cpu.popAll, List.foldl_append, List.foldl_cons, List.foldl_nil]

theorem push_x (c : Cpu) (p : Operand × Operand) : (c.push p).x = c.x ∧ (c.push p).sys = c.sys := ⟨rfl, rfl⟩

theorem push_add (c : Cpu) (p : Operand × Operand) : (c.push p).sp + 16 = c.sp :=
    BitVec.sub_add_cancel c.sp (BitVec.ofNat 64 16)

theorem push_sp (h : 16 ≤ c.sp.toNat) (p : Operand × Operand) : (c.push p).sp.toNat = c.sp.toNat - 16 := by
  have hLe : (16 : Word) ≤ c.sp := BitVec.le_def.mpr h
  exact BitVec.toNat_sub_of_le hLe

theorem push_sameOutside (h : 16 ≤ c.sp.toNat) (p : Operand × Operand) :
    SameOutside c.mem (c.push p).mem (c.sp.toNat - 16) 16 := by
  have hSp := push_sp h p
  intro a ha
  change storeWord (storeWord c.mem (c.push p).sp.toNat _) ((c.push p).sp.toNat + 8) _ a = _
  rw [storeWord_sameOutside _ _ _ a (by omega), storeWord_sameOutside _ _ _ a (by omega)]

theorem push_words (h : 16 ≤ c.sp.toNat) (p : Operand × Operand) :
    word (c.push p).mem (c.sp.toNat - 16) = c.get p.1 ∧ word (c.push p).mem (c.sp.toNat - 16 + 8) = c.get p.2 := by
  rw [← push_sp h p]
  exact ⟨word_pair_first, word_storeWord _ _ _⟩

/-- The frame lies right below the stack pointer, and only it is written. -/
theorem pushAll_frame (ps : List (Operand × Operand)) (c : Cpu) (h : 16 * ps.length ≤ c.sp.toNat) :
    (c.pushAll ps).sp.toNat = c.sp.toNat - 16 * ps.length ∧ (c.pushAll ps).x = c.x ∧ (c.pushAll ps).sys = c.sys ∧
      SameOutside c.mem (c.pushAll ps).mem (c.sp.toNat - 16 * ps.length) (16 * ps.length) := by
  induction ps generalizing c with
  | nil => exact ⟨rfl, rfl, rfl, fun _ _ => rfl⟩
  | cons p ps ih =>
    rw [List.length_cons] at h ⊢
    have hSp := push_sp (c := c) (by omega) p
    obtain ⟨hRest, hX, hSys, hMem⟩ := ih (c.push p) (by omega)
    rw [pushAll_cons]
    refine ⟨by omega, hX.trans (push_x c p).1, hSys.trans (push_x c p).2, ?_⟩
    · intro a ha
      rw [hMem a (by omega), push_sameOutside (by omega) p a (by omega)]

theorem put_x (c : Cpu) (v : Word) (o : Operand) (r : Fin 31) : (c.put v o).x r = if o = some r then v else c.x r := by
  cases o with
  | none => rfl
  | some q =>
    change Function.update c.x q v r = _
    rw [Function.update_apply]
    simp only [Option.some.injEq, eq_comm]

theorem put_rest (c : Cpu) (v : Word) (o : Operand) : (c.put v o).sp = c.sp ∧ (c.put v o).sys = c.sys ∧
    (c.put v o).mem = c.mem := by
  cases o with
  | none => exact ⟨rfl, rfl, rfl⟩
  | some q => exact ⟨rfl, rfl, rfl⟩

theorem pop_rest (c : Cpu) (p : Operand × Operand) : (c.pop p).sp = c.sp + 16 ∧ (c.pop p).sys = c.sys ∧
    (c.pop p).mem = c.mem := by
  rw [Cpu.pop]
  obtain ⟨hSp, hSys, hMem⟩ := put_rest (({ c with sp := c.sp + 16 }).put (word c.mem c.sp.toNat) p.1)
    (word c.mem (c.sp.toNat + 8)) p.2
  obtain ⟨hSp', hSys', hMem'⟩ := put_rest { c with sp := c.sp + 16 } (word c.mem c.sp.toNat) p.1
  exact ⟨hSp.trans hSp', hSys.trans hSys', hMem.trans hMem'⟩

theorem pop_x (c : Cpu) (p : Operand × Operand) (r : Fin 31) : (c.pop p).x r =
    if p.2 = some r then word c.mem (c.sp.toNat + 8) else if p.1 = some r then word c.mem c.sp.toNat else c.x r := by
  rw [Cpu.pop]
  rw [put_x, put_x]

/-- Popping what was pushed restores the registers of the pairs and the stack pointer. `d` may have changed everything
but the stack pointer and the frame. -/
theorem popAll_pushAll (ps : List (Operand × Operand)) (c d : Cpu) (h : 16 * ps.length ≤ c.sp.toNat)
    (hSp : d.sp = (c.pushAll ps).sp)
    (hFrame : ∀ a, c.sp.toNat - 16 * ps.length ≤ a → a < c.sp.toNat → d.mem a = (c.pushAll ps).mem a) :
    (d.popAll ps.reverse).sp = c.sp ∧ (d.popAll ps.reverse).sys = d.sys ∧ (d.popAll ps.reverse).mem = d.mem ∧
      ∀ r ∈ registers ps, (d.popAll ps.reverse).x r = c.x r := by
  induction ps generalizing c with
  | nil => exact ⟨hSp, rfl, rfl, fun r hr => absurd hr List.not_mem_nil⟩
  | cons p ps ih =>
    rw [List.length_cons, pushAll_cons] at hFrame
    rw [List.length_cons] at h
    rw [pushAll_cons] at hSp
    have hRoom : 16 ≤ c.sp.toNat := by omega
    have hPush := push_sp hRoom p
    obtain ⟨hSp', hSys, hMem, hX⟩ :=
      ih (c.push p) (by omega) hSp (fun a hLow hHigh => hFrame a (by omega) (by omega))
    -- the last pop finds the pair that was pushed first
    have hWord : ∀ a, c.sp.toNat - 16 ≤ a → a + 8 ≤ c.sp.toNat → word d.mem a = word (c.push p).mem a := by
      intro a hLow hHigh
      rw [word, word]
      refine congrArg _ (load_congr ?_)
      intro k hk
      rw [hFrame (a + k) (by omega) (by omega)]
      exact (pushAll_frame ps (c.push p) (by omega)).2.2.2 (a + k) (by omega)
    obtain ⟨hFirst, hSecond⟩ := push_words hRoom p
    rw [List.reverse_cons, popAll_concat]
    obtain ⟨hPopSp, hPopSys, hPopMem⟩ := pop_rest (d.popAll ps.reverse) p
    refine ⟨?_, hPopSys.trans hSys, hPopMem.trans hMem, ?_⟩
    · rw [hPopSp, hSp', push_add]
    · intro r hr
      rw [pop_x, hMem, hSp', hPush, hWord _ (by omega) (by omega), hWord _ (by omega) (by omega), hFirst, hSecond]
      have hGet : ∀ o : Operand, o = some r → c.get o = c.x r := by
        rintro o rfl
        rfl
      by_cases hSecondReg : p.2 = some r
      · rw [if_pos hSecondReg, hGet _ hSecondReg]
      rw [if_neg hSecondReg]
      by_cases hFirstReg : p.1 = some r
      · rw [if_pos hFirstReg, hGet _ hFirstReg]
      rw [registers, List.flatMap_cons, List.mem_append, List.mem_append, Option.mem_toList, Option.mem_toList] at hr
      obtain hPair | hRest := hr
      · exact absurd hPair (not_or.mpr ⟨hFirstReg, hSecondReg⟩)
      · rw [if_neg hFirstReg, hX r hRest, (push_x c p).1]

end

end Library.A64
