import HyperPoc.Library.Memory

/-! # Straight-line A64 code that moves registers

The state has the general registers, the stack pointer, three system registers and memory. An access of
a pair reads or writes two adjacent words. Blocks of pair accesses at rising offsets from one base
register save or load a range of registers.
-/
namespace Library.A64
open Library.Memory
set_option autoImplicit false

abbrev Word := BitVec 64

def word (m : Mem) (a : Nat) : Word := BitVec.ofNat 64 (load m a 8)

def storeWord (m : Mem) (a : Nat) (v : Word) : Mem := store m a 8 v.toNat

inductive SysReg
  | spsrEl2
  | elrEl2
  | tpidrEl2
  deriving DecidableEq, Repr

inductive Base
  | sp
  | x (n : Fin 31)
  deriving DecidableEq, Repr

inductive Address
  | offset (base : Base) (imm : Int)
  | preIndex (base : Base) (imm : Int)
  | postIndex (base : Base) (imm : Int)
  deriving DecidableEq, Repr

inductive Instr
  | stp (a b : Fin 31) (p : Address)
  | ldp (a b : Fin 31) (p : Address)
  | str (a : Fin 31) (p : Address)
  | ldr (a : Fin 31) (p : Address)
  | mrs (a : Fin 31) (s : SysReg)
  | msr (s : SysReg) (a : Fin 31)
  deriving DecidableEq, Repr

structure Cpu where
  x : Fin 31 → Word
  sp : Word
  sys : SysReg → Word
  mem : Mem

namespace Cpu

def base (c : Cpu) : Base → Word
  | .sp => c.sp
  | .x n => c.x n

def setX (c : Cpu) (n : Fin 31) (v : Word) : Cpu := { c with x := Function.update c.x n v }

def setMem (c : Cpu) (m : Mem) : Cpu := { c with mem := m }

def setAll (c : Cpu) (x : Fin 31 → Word) : Cpu := { c with x := x }

def setBase (c : Cpu) (v : Word) : Base → Cpu
  | .sp => { c with sp := v }
  | .x n => c.setX n v

def address (c : Cpu) : Address → Nat
  | .offset b imm => (c.base b + BitVec.ofInt 64 imm).toNat
  | .preIndex b imm => (c.base b + BitVec.ofInt 64 imm).toNat
  | .postIndex b _ => (c.base b).toNat

def writeBack (c : Cpu) : Address → Cpu
  | .offset _ _ => c
  | .preIndex b imm => c.setBase (c.base b + BitVec.ofInt 64 imm) b
  | .postIndex b imm => c.setBase (c.base b + BitVec.ofInt 64 imm) b

def step (c : Cpu) : Instr → Cpu
  | .stp a b p =>
    let at₁ := c.address p
    (c.setMem (storeWord (storeWord c.mem at₁ (c.x a)) (at₁ + 8) (c.x b))).writeBack p
  | .ldp a b p =>
    let at₁ := c.address p
    ((c.writeBack p).setX a (word c.mem at₁)).setX b (word c.mem (at₁ + 8))
  | .str a p => (c.setMem (storeWord c.mem (c.address p) (c.x a))).writeBack p
  | .ldr a p => (c.writeBack p).setX a (word c.mem (c.address p))
  | .mrs a s => c.setX a (c.sys s)
  | .msr s a => { c with sys := Function.update c.sys s (c.x a) }

def run (c : Cpu) (is : List Instr) : Cpu := is.foldl step c

end Cpu

section Words
variable (m : Mem) (a : Nat) (v : Word)

theorem word_storeWord : word (storeWord m a v) a = v := by
  rw [word, storeWord, load_store v.isLt, BitVec.ofNat_toNat, BitVec.setWidth_eq]

theorem storeWord_sameOutside : SameOutside m (storeWord m a v) a 8 := store_sameOutside m a 8 v.toNat

end Words

theorem SameOutside.word_eq {m m' : Mem} {a n b : Nat} (h : SameOutside m m' a n) (hb : b + 8 ≤ a ∨ a + n ≤ b) :
    word m' b = word m b := by
  rw [word, word, h.load_eq hb]

theorem word_storeWord_of_disjoint {m : Mem} {a b : Nat} {v : Word} (h : b + 8 ≤ a ∨ a + 8 ≤ b) :
    word (storeWord m a v) b = word m b := SameOutside.word_eq (storeWord_sameOutside m a v) h

section Pairs
variable {m : Mem} {a : Nat} {v w : Word}

theorem word_pair_first : word (storeWord (storeWord m a v) (a + 8) w) a = v := by
  rw [word_storeWord_of_disjoint (.inl (Nat.le_refl _)), word_storeWord]

theorem word_pair_of_disjoint {b : Nat} (h : b + 8 ≤ a ∨ a + 16 ≤ b) :
    word (storeWord (storeWord m a v) (a + 8) w) b = word m b := by
  rw [word_storeWord_of_disjoint (by omega), word_storeWord_of_disjoint (by omega)]

end Pairs

theorem run_append (c : Cpu) (is js : List Instr) : c.run (is ++ js) = (c.run is).run js := List.foldl_append

theorem address_offset {c : Cpu} {b : Base} {k : Nat} (h : (c.base b).toNat + k < 2 ^ 64) :
    c.address (.offset b k) = (c.base b).toNat + k := by
  rw [Cpu.address, BitVec.ofInt_natCast, BitVec.toNat_add, BitVec.toNat_ofNat]
  omega

theorem step_push (c : Cpu) (a b : Fin 31) (imm : Int) : c.step (.stp a b (.preIndex .sp imm)) =
    ⟨c.x, c.sp + BitVec.ofInt 64 imm, c.sys, storeWord (storeWord c.mem (c.sp + BitVec.ofInt 64 imm).toNat (c.x a))
      ((c.sp + BitVec.ofInt 64 imm).toNat + 8) (c.x b)⟩ := rfl

theorem step_pop (c : Cpu) (a b : Fin 31) (imm : Int) : c.step (.ldp a b (.postIndex .sp imm)) =
    ⟨Function.update (Function.update c.x a (word c.mem c.sp.toNat)) b (word c.mem (c.sp.toNat + 8)),
      c.sp + BitVec.ofInt 64 imm, c.sys, c.mem⟩ := rfl

def reg (i : Nat) : Fin 31 := ⟨i % 31, Nat.mod_lt i (by decide)⟩

theorem reg_val {i : Nat} (h : i < 31) : (reg i).val = i := Nat.mod_eq_of_lt h

theorem reg_of_val {r : Fin 31} {i : Nat} (h : r.val = i) : reg i = r := by
  apply Fin.ext
  rw [reg_val (by omega), h]

/-- Registers `2 * k` and `2 * k + 1` at the offset that the base's array of registers has for them. -/
def storePair (b : Fin 31) (k : Nat) : Instr := .stp (reg (2 * k)) (reg (2 * k + 1)) (.offset (.x b) (16 * k : Nat))

def loadPair (b : Fin 31) (k : Nat) : Instr := .ldp (reg (2 * k)) (reg (2 * k + 1)) (.offset (.x b) (16 * k : Nat))

theorem step_storePair {c : Cpu} {b : Fin 31} {k : Nat} (h : (c.x b).toNat + 16 * k < 2 ^ 64) :
    c.step (storePair b k) = c.setMem (storeWord (storeWord c.mem ((c.x b).toNat + 16 * k) (c.x (reg (2 * k))))
      ((c.x b).toNat + 16 * k + 8) (c.x (reg (2 * k + 1)))) := by
  rw [storePair, Cpu.step, address_offset h]
  rfl

theorem step_loadPair {c : Cpu} {b : Fin 31} {k : Nat} (h : (c.x b).toNat + 16 * k < 2 ^ 64) :
    c.step (loadPair b k) = (c.setX (reg (2 * k)) (word c.mem ((c.x b).toNat + 16 * k))).setX (reg (2 * k + 1))
      (word c.mem ((c.x b).toNat + 16 * k + 8)) := by
  rw [loadPair, Cpu.step, address_offset h]
  rfl

/-- A block of stores writes the registers of its range to their places and changes nothing else. -/
theorem run_storePairs (c : Cpu) (b : Fin 31) (j n : Nat) (hEnd : (c.x b).toNat + 16 * (j + n) ≤ 2 ^ 64) :
    ∃ m, c.run ((List.range' j n).map (storePair b)) = c.setMem m ∧
      SameOutside c.mem m ((c.x b).toNat + 16 * j) (16 * n) ∧
      ∀ r : Fin 31, 2 * j ≤ r.val → r.val < 2 * (j + n) → word m ((c.x b).toNat + 8 * r.val) = c.x r := by
  induction n generalizing c j with
  | zero => exact ⟨c.mem, rfl, fun _ _ => rfl, fun r hLow hHigh => absurd hHigh (by omega)⟩
  | succ n ih =>
    rw [List.range'_succ, List.map_cons, Cpu.run, List.foldl_cons, step_storePair (by omega)]
    generalize hFirst : storeWord (storeWord c.mem ((c.x b).toNat + 16 * j) (c.x (reg (2 * j))))
      ((c.x b).toNat + 16 * j + 8) (c.x (reg (2 * j + 1))) = first
    obtain ⟨m, hRun, hOutside, hWords⟩ := ih (c.setMem first) (j + 1) (by
      change (c.x b).toNat + 16 * (j + 1 + n) ≤ 2 ^ 64
      omega)
    change SameOutside first m ((c.x b).toNat + 16 * (j + 1)) (16 * n) at hOutside
    refine ⟨m, hRun, ?_, ?_⟩
    · intro a ha
      rw [hOutside a (by omega)]
      rw [← hFirst, storeWord_sameOutside _ _ _ a (by omega), storeWord_sameOutside _ _ _ a (by omega)]
    · intro r hLow hHigh
      by_cases hLater : 2 * (j + 1) ≤ r.val
      · exact hWords r hLater (by omega)
      · rw [SameOutside.word_eq hOutside (.inl (by omega))]
        by_cases hEven : r.val = 2 * j
        · rw [← hFirst, show (c.x b).toNat + 8 * r.val = (c.x b).toNat + 16 * j by omega, word_pair_first,
            reg_of_val hEven]
        · have hOdd : r.val = 2 * j + 1 := by omega
          rw [← hFirst, show (c.x b).toNat + 8 * r.val = (c.x b).toNat + 16 * j + 8 by omega, word_storeWord,
            reg_of_val hOdd]

/-- A block of loads, none of them into the base, fills the registers of its range and changes nothing else. -/
theorem run_loadPairs (c : Cpu) (b : Fin 31) (j n : Nat) (hBase : b.val < 2 * j) (hRegs : 2 * (j + n) ≤ 31)
    (hEnd : (c.x b).toNat + 16 * (j + n) ≤ 2 ^ 64) :
    ∃ x, c.run ((List.range' j n).map (loadPair b)) = c.setAll x ∧
      (∀ r : Fin 31, r.val < 2 * j ∨ 2 * (j + n) ≤ r.val → x r = c.x r) ∧
      ∀ r : Fin 31, 2 * j ≤ r.val → r.val < 2 * (j + n) → x r = word c.mem ((c.x b).toNat + 8 * r.val) := by
  induction n generalizing c j with
  | zero => exact ⟨c.x, rfl, fun _ _ => rfl, fun r hLow hHigh => absurd hHigh (by omega)⟩
  | succ n ih =>
    rw [List.range'_succ, List.map_cons, Cpu.run, List.foldl_cons, step_loadPair (by omega)]
    generalize hFirst : (c.setX (reg (2 * j)) (word c.mem ((c.x b).toNat + 16 * j))).setX (reg (2 * j + 1))
      (word c.mem ((c.x b).toNat + 16 * j + 8)) = first
    have hEven : (reg (2 * j)).val = 2 * j := reg_val (by omega)
    have hOdd : (reg (2 * j + 1)).val = 2 * j + 1 := reg_val (by omega)
    have hOther : ∀ r : Fin 31, r.val ≠ 2 * j → r.val ≠ 2 * j + 1 → first.x r = c.x r := by
      intro r hr hr'
      rw [← hFirst, Cpu.setX, Cpu.setX]
      dsimp only
      rw [Function.update_of_ne (fun h => hr' (by rw [h, hOdd])),
        Function.update_of_ne (fun h => hr (by rw [h, hEven]))]
    have hBaseKept : first.x b = c.x b := hOther b (by omega) (by omega)
    have hMem : first.mem = c.mem := by rw [← hFirst]; rfl
    obtain ⟨x, hRun, hKept, hLoaded⟩ := ih first (j + 1) (by omega) (by omega) (by rw [hBaseKept]; omega)
    refine ⟨x, ?_, ?_, ?_⟩
    · rw [show List.foldl Cpu.step first _ = _ from hRun, ← hFirst]
      rfl
    · intro r hr
      rw [hKept r (by omega), hOther r (by omega) (by omega)]
    · intro r hLow hHigh
      by_cases hLater : 2 * (j + 1) ≤ r.val
      · rw [hLoaded r hLater (by omega), hBaseKept, hMem]
      · rw [hKept r (by omega), ← hFirst, Cpu.setX, Cpu.setX]
        dsimp only
        by_cases hr : r.val = 2 * j
        · rw [Function.update_of_ne (fun h => by rw [h] at hr; omega), ← reg_of_val hr, Function.update_self, hEven]
          congr 1
          omega
        · have hr' : r.val = 2 * j + 1 := by omega
          rw [← reg_of_val hr', Function.update_self, hOdd]
          congr 1
          omega

end Library.A64
