import HyperPoc.Library.StackFrame

/-! # Saving and restoring the guest's registers

The entries for exceptions from a lower level save the guest's registers to the `vcpu` that `tpidr_el2`
points to, call a handler and resume the guest from what the `vcpu` then holds. The stack serves to keep
`x0` and `x1` while they address the `vcpu`.
-/
namespace HyperPoc.Vector
open Library.Memory Library.A64
set_option autoImplicit false

def vmContextSave : List Instr :=
  [.stp 0 1 (.preIndex .sp (-16)),
   .mrs 0 .tpidrEl2,
   .stp 2 3 (.offset (.x 0) (16 * 1)),
   .stp 4 5 (.offset (.x 0) (16 * 2)),
   .stp 6 7 (.offset (.x 0) (16 * 3)),
   .stp 8 9 (.offset (.x 0) (16 * 4)),
   .stp 10 11 (.offset (.x 0) (16 * 5)),
   .stp 12 13 (.offset (.x 0) (16 * 6)),
   .stp 14 15 (.offset (.x 0) (16 * 7)),
   .stp 16 17 (.offset (.x 0) (16 * 8)),
   .stp 18 19 (.offset (.x 0) (16 * 9)),
   .stp 20 21 (.offset (.x 0) (16 * 10)),
   .stp 22 23 (.offset (.x 0) (16 * 11)),
   .stp 24 25 (.offset (.x 0) (16 * 12)),
   .stp 26 27 (.offset (.x 0) (16 * 13)),
   .stp 28 29 (.offset (.x 0) (16 * 14)),
   .mrs 1 .spsrEl2,
   .mrs 2 .elrEl2,
   .stp 30 1 (.offset (.x 0) (16 * 15)),
   .str 2 (.offset (.x 0) (16 * 16)),
   .ldp 3 4 (.postIndex .sp 16),
   .stp 3 4 (.offset (.x 0) (16 * 0))]

def vmContextRestore : List Instr :=
  [.mrs 0 .tpidrEl2,
   .ldp 30 1 (.offset (.x 0) (16 * 15)),
   .ldr 2 (.offset (.x 0) (16 * 16)),
   .ldp 3 4 (.offset (.x 0) (16 * 0)),
   .stp 3 4 (.preIndex .sp (-16)),
   .msr .spsrEl2 1,
   .msr .elrEl2 2,
   .ldp 2 3 (.offset (.x 0) (16 * 1)),
   .ldp 4 5 (.offset (.x 0) (16 * 2)),
   .ldp 6 7 (.offset (.x 0) (16 * 3)),
   .ldp 8 9 (.offset (.x 0) (16 * 4)),
   .ldp 10 11 (.offset (.x 0) (16 * 5)),
   .ldp 12 13 (.offset (.x 0) (16 * 6)),
   .ldp 14 15 (.offset (.x 0) (16 * 7)),
   .ldp 16 17 (.offset (.x 0) (16 * 8)),
   .ldp 18 19 (.offset (.x 0) (16 * 9)),
   .ldp 20 21 (.offset (.x 0) (16 * 10)),
   .ldp 22 23 (.offset (.x 0) (16 * 11)),
   .ldp 24 25 (.offset (.x 0) (16 * 12)),
   .ldp 26 27 (.offset (.x 0) (16 * 13)),
   .ldp 28 29 (.offset (.x 0) (16 * 14)),
   .ldp 0 1 (.postIndex .sp 16)]

/-- What an `eret` resumes, with the stack pointer it leaves behind. -/
@[ext]
structure Resumed where
  x : Fin 31 → Word
  pstate : Word
  pc : Word
  sp : Word

def eret (c : Cpu) : Resumed := ⟨c.x, c.sys .spsrEl2, c.sys .elrEl2, c.sp⟩

def eretVm (c : Cpu) : Resumed := eret (c.run vmContextRestore)

/-- The members of `reg` in `struct vcpu`. -/
inductive RegField
  | x (i : Fin 31)
  | spsrEl2
  | elrEl2

/-- The layout in C: words follow each other without padding, and `reg` is the first member. -/
def RegField.offset : RegField → Nat
  | .x i => 8 * i.val
  | .spsrEl2 => 8 * 31
  | .elrEl2 => 8 * 31 + 8

def regSize : Nat := 8 * 33

def RegField.read (f : RegField) (m : Mem) (vcpu : Nat) : Word := word m (vcpu + f.offset)

def RegField.register (c : Cpu) : RegField → Word
  | .x i => c.x i
  | .spsrEl2 => c.sys .spsrEl2
  | .elrEl2 => c.sys .elrEl2

def saveHead : List Instr := [.stp 0 1 (.preIndex .sp (-16)), .mrs 0 .tpidrEl2]

def saveTail : List Instr :=
  [.mrs 1 .spsrEl2, .mrs 2 .elrEl2, .stp 30 1 (.offset (.x 0) (240 : Nat)), .str 2 (.offset (.x 0) (256 : Nat)),
    .ldp 3 4 (.postIndex .sp 16), .stp 3 4 (.offset (.x 0) (0 : Nat))]

theorem vmContextSave_eq : vmContextSave = saveHead ++ ((List.range' 1 14).map (storePair 0) ++ saveTail) := by decide

def restoreHead : List Instr :=
  [.mrs 0 .tpidrEl2, .ldp 30 1 (.offset (.x 0) (240 : Nat)), .ldr 2 (.offset (.x 0) (256 : Nat)),
    .ldp 3 4 (.offset (.x 0) (0 : Nat)), .stp 3 4 (.preIndex .sp (-16)), .msr .spsrEl2 1, .msr .elrEl2 2]

def restoreTail : List Instr := [.ldp 0 1 (.postIndex .sp 16)]

theorem vmContextRestore_eq :
    vmContextRestore = restoreHead ++ ((List.range' 1 14).map (loadPair 0) ++ restoreTail) := by decide

theorem pushed_toNat {sp : Word} (h : 16 ≤ sp.toNat) : (sp + BitVec.ofInt 64 (-16)).toNat = sp.toNat - 16 := by
  rw [BitVec.toNat_add]
  change (sp.toNat + (2 ^ 64 - 16)) % 2 ^ 64 = _
  omega

theorem popped (sp : Word) : sp + BitVec.ofInt 64 (-16) + BitVec.ofInt 64 16 = sp := by
  rw [BitVec.add_assoc]
  exact BitVec.add_zero sp

/-- The memory with `x30` and the system registers in their places. -/
def systemSaved (c : Cpu) (vcpu : Nat) : Mem :=
  storeWord (storeWord (storeWord c.mem (vcpu + 240) (c.x 30)) (vcpu + 240 + 8) (c.sys .spsrEl2)) (vcpu + 256)
    (c.sys .elrEl2)

theorem address_reg {base : Word} {vcpu : Nat} (hBase : base.toNat = vcpu) (hEnd : vcpu + regSize ≤ 2 ^ 64) {k : Nat}
    (hk : k < regSize) : (base + BitVec.ofInt 64 k).toNat = vcpu + k := by
  rw [BitVec.ofInt_natCast, BitVec.toNat_add, BitVec.toNat_ofNat, hBase]
  omega

theorem run_saveTail_sys (c : Cpu) : (c.run saveTail).sys = c.sys := rfl

theorem run_saveTail_sp (c : Cpu) : (c.run saveTail).sp = c.sp + BitVec.ofInt 64 16 := rfl

theorem run_saveTail_mem {c : Cpu} {vcpu : Nat} (hBase : (c.x 0).toNat = vcpu) (hEnd : vcpu + regSize ≤ 2 ^ 64) :
    (c.run saveTail).mem = storeWord (storeWord (systemSaved c vcpu) vcpu (word (systemSaved c vcpu) c.sp.toNat))
      (vcpu + 8) (word (systemSaved c vcpu) (c.sp.toNat + 8)) := by
  simp only [saveTail, Cpu.run, List.foldl, Cpu.step, Cpu.setX, Cpu.setMem, Cpu.address, Cpu.base, Cpu.writeBack,
    Cpu.setBase, Function.update_apply, Fin.reduceEq, if_false, if_true]
  rw [address_reg hBase hEnd (k := 240) (by decide), address_reg hBase hEnd (k := 256) (by decide),
    address_reg hBase hEnd (k := 0) (by decide)]
  rfl

theorem systemSaved_sameOutside (c : Cpu) (vcpu : Nat) : SameOutside c.mem (systemSaved c vcpu) (vcpu + 240) 24 := by
  intro a ha
  rw [systemSaved, storeWord_sameOutside _ _ _ a (by omega), storeWord_sameOutside _ _ _ a (by omega),
    storeWord_sameOutside _ _ _ a (by omega)]

theorem systemSaved_words (c : Cpu) (vcpu : Nat) : word (systemSaved c vcpu) (vcpu + 240) = c.x 30 ∧
    word (systemSaved c vcpu) (vcpu + 248) = c.sys .spsrEl2 ∧
    word (systemSaved c vcpu) (vcpu + 256) = c.sys .elrEl2 := by
  rw [systemSaved]
  refine ⟨?_, ?_, ?_⟩
  · rw [word_storeWord_of_disjoint (by omega), word_storeWord_of_disjoint (by omega), word_storeWord]
  · rw [word_storeWord_of_disjoint (by omega), word_storeWord]
  · rw [word_storeWord]

/-- A state at a trap or before a return: `tpidr_el2` points to the `vcpu`, and the 16 bytes below the
stack pointer lie apart from it. -/
structure Trapped (c : Cpu) (vcpu : Nat) : Prop where
  base : (c.sys .tpidrEl2).toNat = vcpu
  inside : vcpu + regSize ≤ 2 ^ 64
  room : 16 ≤ c.sp.toNat
  apart : c.sp.toNat ≤ vcpu ∨ vcpu + regSize ≤ c.sp.toNat - 16

/-- The pair on the stack and the members of `reg`, at any of their offsets. -/
theorem Trapped.stack_apart {c : Cpu} {vcpu : Nat} (h : Trapped c vcpu) {s : Word}
    (hs : s = c.sp + BitVec.ofInt 64 (-16)) : s.toNat + 16 ≤ vcpu ∨ vcpu + 264 ≤ s.toNat := by
  have hRoom := h.room
  have hApart := h.apart
  rw [hs, pushed_toNat hRoom]
  rw [regSize] at hApart
  omega

/-- The stack pointer has moved, `x0` points to the `vcpu` and the stack holds the old `x0` and `x1`. -/
def stashed (c : Cpu) : Cpu where
  x := Function.update c.x 0 (c.sys .tpidrEl2)
  sp := c.sp + BitVec.ofInt 64 (-16)
  sys := c.sys
  mem := storeWord (storeWord c.mem (c.sp + BitVec.ofInt 64 (-16)).toNat (c.x 0))
    ((c.sp + BitVec.ofInt 64 (-16)).toNat + 8) (c.x 1)

theorem run_saveHead (c : Cpu) : c.run saveHead = stashed c := by
  rw [saveHead, Cpu.run, List.foldl_cons, step_push]
  rfl

section Save
variable {c : Cpu} {vcpu : Nat}

theorem stashed_base (h : Trapped c vcpu) : ((stashed c).x 0).toNat = vcpu := h.base

/-- The registers from `x2` to `x29` are in the `vcpu`, and `x0` and `x1` still on the stack. -/
theorem run_saveBlock (h : Trapped c vcpu) :
    ∃ m, (stashed c).run ((List.range' 1 14).map (storePair 0)) = (stashed c).setMem m ∧
      (∀ r : Fin 31, 2 ≤ r.val → r.val < 30 → word m (vcpu + 8 * r.val) = c.x r) ∧
      word m (stashed c).sp.toNat = c.x 0 ∧ word m ((stashed c).sp.toNat + 8) = c.x 1 := by
  have hInside : vcpu + 264 ≤ 2 ^ 64 := h.inside
  have hApart := h.stack_apart (s := (stashed c).sp) rfl
  obtain ⟨m, hRun, hOutside, hWords⟩ := run_storePairs (stashed c) 0 1 14 (by
    rw [stashed_base h]
    omega)
  rw [stashed_base h] at hOutside hWords
  refine ⟨m, hRun, ?_, ?_, ?_⟩
  · intro r hLow hHigh
    rw [hWords r hLow hHigh]
    exact Function.update_of_ne (fun hr => by rw [hr] at hLow; exact absurd hLow (by decide)) _ _
  · rw [SameOutside.word_eq hOutside (by omega)]
    exact word_pair_first
  · rw [SameOutside.word_eq hOutside (by omega)]
    exact word_storeWord _ _ _

theorem vmContextSave_sp (h : Trapped c vcpu) : (c.run vmContextSave).sp = c.sp := by
  obtain ⟨m, hRun, _⟩ := run_saveBlock h
  rw [vmContextSave_eq, run_append, run_append, run_saveHead, hRun, run_saveTail_sp]
  exact popped c.sp

theorem vmContextSave_sys (h : Trapped c vcpu) : (c.run vmContextSave).sys = c.sys := by
  obtain ⟨m, hRun, _⟩ := run_saveBlock h
  rw [vmContextSave_eq, run_append, run_append, run_saveHead, hRun]
  exact run_saveTail_sys ((stashed c).setMem m)

theorem vmContextSave_reg (h : Trapped c vcpu) (f : RegField) :
    f.read (c.run vmContextSave).mem vcpu = f.register c := by
  have hApart := h.stack_apart (s := (stashed c).sp) rfl
  obtain ⟨m, hRun, hWords, hFirst, hSecond⟩ := run_saveBlock h
  have hTail := run_saveTail_mem (c := (stashed c).setMem m) (stashed_base h) h.inside
  have hSame := systemSaved_sameOutside ((stashed c).setMem m) vcpu
  change SameOutside m (systemSaved ((stashed c).setMem m) vcpu) (vcpu + 240) 24 at hSame
  change _ = storeWord (storeWord _ vcpu (word _ (stashed c).sp.toNat)) (vcpu + 8)
    (word _ ((stashed c).sp.toNat + 8)) at hTail
  rw [vmContextSave_eq, run_append, run_append, run_saveHead, hRun, hTail, RegField.read,
    SameOutside.word_eq hSame (b := (stashed c).sp.toNat) (by omega),
    SameOutside.word_eq hSame (b := (stashed c).sp.toNat + 8) (by omega), hFirst, hSecond]
  obtain ⟨hLink, hSpsr, hElr⟩ := systemSaved_words ((stashed c).setMem m) vcpu
  cases f with
  | x i =>
    change word _ (vcpu + 8 * i.val) = c.x i
    by_cases hZero : i = 0
    · rw [hZero]
      exact word_pair_first
    · by_cases hOne : i = 1
      · rw [hOne]
        exact word_storeWord _ _ _
      · rw [word_pair_of_disjoint (by omega)]
        by_cases hLast : i = 30
        · rw [hLast]
          exact hLink
        · rw [SameOutside.word_eq hSame (by omega), hWords i (by omega) (by omega)]
  | spsrEl2 => exact (word_pair_of_disjoint (b := vcpu + 248) (by omega)).trans hSpsr
  | elrEl2 => exact (word_pair_of_disjoint (b := vcpu + 256) (by omega)).trans hElr

end Save

section Restore
variable {c : Cpu} {vcpu : Nat}

/-- The system registers are set and the stack holds the guest's `x0` and `x1`. -/
def restoring (c : Cpu) (vcpu : Nat) : Cpu where
  x := Function.update (Function.update (Function.update (Function.update (Function.update (Function.update c.x
    0 (c.sys .tpidrEl2)) 30 (word c.mem (vcpu + 240))) 1 (word c.mem (vcpu + 240 + 8))) 2 (word c.mem (vcpu + 256)))
    3 (word c.mem vcpu)) 4 (word c.mem (vcpu + 8))
  sp := c.sp + BitVec.ofInt 64 (-16)
  sys := Function.update (Function.update c.sys .spsrEl2 (word c.mem (vcpu + 240 + 8))) .elrEl2
    (word c.mem (vcpu + 256))
  mem := storeWord (storeWord c.mem (c.sp + BitVec.ofInt 64 (-16)).toNat (word c.mem vcpu))
    ((c.sp + BitVec.ofInt 64 (-16)).toNat + 8) (word c.mem (vcpu + 8))

theorem run_restoreHead (h : Trapped c vcpu) : c.run restoreHead = restoring c vcpu := by
  simp only [restoreHead, Cpu.run, List.foldl, Cpu.step, Cpu.setX, Cpu.setMem, Cpu.address, Cpu.base, Cpu.writeBack,
    Cpu.setBase, Function.update_self, Function.update_apply, Fin.reduceEq, if_false]
  rw [address_reg h.base h.inside (k := 240) (by decide), address_reg h.base h.inside (k := 256) (by decide),
    address_reg h.base h.inside (k := 0) (by decide)]
  rfl

def guestFrom (m : Mem) (vcpu : Nat) (sp : Word) : Resumed where
  x i := RegField.read (.x i) m vcpu
  pstate := RegField.read .spsrEl2 m vcpu
  pc := RegField.read .elrEl2 m vcpu
  sp := sp

theorem eretVm_eq (h : Trapped c vcpu) : eretVm c = guestFrom c.mem vcpu c.sp := by
  have hInside : vcpu + 264 ≤ 2 ^ 64 := h.inside
  have hApart := h.stack_apart (s := c.sp + BitVec.ofInt 64 (-16)) rfl
  have hBase : ((restoring c vcpu).x 0).toNat = vcpu := h.base
  have hReg : ∀ k : Nat, k + 8 ≤ 264 → word (restoring c vcpu).mem (vcpu + k) = word c.mem (vcpu + k) := by
    intro k hk
    exact word_pair_of_disjoint (by omega)
  obtain ⟨x, hRun, hKept, hLoaded⟩ := run_loadPairs (restoring c vcpu) 0 1 14 (by decide) (by decide) (by
    rw [hBase]
    omega)
  rw [hBase] at hLoaded
  rw [eretVm, vmContextRestore_eq, run_append, run_append, run_restoreHead h, hRun, restoreTail, Cpu.run,
    List.foldl_cons, step_pop]
  refine Resumed.ext (funext fun i => ?_) rfl rfl (popped c.sp)
  change Function.update (Function.update x 0 (word (restoring c vcpu).mem (restoring c vcpu).sp.toNat)) 1
    (word (restoring c vcpu).mem ((restoring c vcpu).sp.toNat + 8)) i = word c.mem (vcpu + 8 * i.val)
  by_cases hOne : i = 1
  · rw [hOne, Function.update_self]
    exact word_storeWord _ _ _
  · rw [Function.update_of_ne hOne]
    by_cases hZero : i = 0
    · rw [hZero, Function.update_self]
      exact word_pair_first
    · rw [Function.update_of_ne hZero]
      by_cases hLast : i = 30
      · rw [hKept i (by omega), hLast]
        rfl
      · rw [hLoaded i (by omega) (by omega), hReg _ (by omega)]

end Restore

/-- What a trap and the return from it do to the guest's registers. The state before the return is any one
that the handler leaves with the same stack pointer and the same `vcpu`. -/
structure RoundTrip (c : Cpu) (vcpu : Nat) : Prop where
  saved : ∀ f : RegField, f.read (c.run vmContextSave).mem vcpu = f.register c
  sp_kept : (c.run vmContextSave).sp = c.sp
  resumed : ∀ c' : Cpu, c'.sys .tpidrEl2 = c.sys .tpidrEl2 → c'.sp = c.sp → eretVm c' = guestFrom c'.mem vcpu c.sp
  identity : ∀ c' : Cpu, c'.sys .tpidrEl2 = c.sys .tpidrEl2 → c'.sp = c.sp →
    (∀ f : RegField, f.read c'.mem vcpu = f.read (c.run vmContextSave).mem vcpu) → eretVm c' = eret c
  paired : eretVm (c.run vmContextSave) = eret c

theorem context_roundTrip (c : Cpu) (vcpu : Nat) (h : Trapped c vcpu) : RoundTrip c vcpu := by
  have hResumed : ∀ c' : Cpu, c'.sys .tpidrEl2 = c.sys .tpidrEl2 → c'.sp = c.sp →
      eretVm c' = guestFrom c'.mem vcpu c.sp := by
    intro c' hTpidr hSp
    have hTrapped : Trapped c' vcpu := by
      refine ⟨?_, h.inside, ?_, ?_⟩
      · rw [hTpidr]
        exact h.base
      · rw [hSp]
        exact h.room
      · rw [hSp]
        exact h.apart
    rw [eretVm_eq hTrapped, hSp]
  have hIdentity : ∀ c' : Cpu, c'.sys .tpidrEl2 = c.sys .tpidrEl2 → c'.sp = c.sp →
      (∀ f : RegField, f.read c'.mem vcpu = f.read (c.run vmContextSave).mem vcpu) → eretVm c' = eret c := by
    intro c' hTpidr hSp hSame
    have hReg : ∀ f : RegField, f.read c'.mem vcpu = f.register c := by
      intro f
      rw [hSame f, vmContextSave_reg h f]
    rw [hResumed c' hTpidr hSp]
    exact Resumed.ext (funext fun i => hReg (.x i)) (hReg .spsrEl2) (hReg .elrEl2) rfl
  exact ⟨vmContextSave_reg h, vmContextSave_sp h, hResumed, hIdentity,
    hIdentity _ (congrFun (vmContextSave_sys h) _) (vmContextSave_sp h) fun _ => rfl⟩

/-- A core with its registers numbered, a `vcpu` at 0x40010000 and a stack below 0x40002000. -/
def trappedCpu : Cpu where
  x i := BitVec.ofNat 64 i.val
  sp := 0x40002000
  sys
    | .spsrEl2 => 0x5
    | .elrEl2 => 0x80000000
    | .tpidrEl2 => 0x40010000
  mem _ := 0

theorem context_roundTrip_small : Trapped trappedCpu 0x40010000 ∧ RoundTrip trappedCpu 0x40010000 := by
  have hTrapped : Trapped trappedCpu 0x40010000 := ⟨by decide, by decide, by decide, by decide⟩
  exact ⟨hTrapped, context_roundTrip trappedCpu 0x40010000 hTrapped⟩

/-! ## Interrupts of the hypervisor itself -/

def hypContextSave : List (Operand × Operand) :=
  [(some 1, some 0), (some 3, some 2), (some 5, some 4), (some 7, some 6), (some 9, some 8), (some 11, some 10),
    (some 13, some 12), (some 15, some 14), (some 17, some 16), (some 19, some 18), (some 21, some 20),
      (some 23, some 22),
    (some 25, some 24), (some 27, some 26), (some 29, some 28), (none, some 30)]

def hypContextRestore : List (Operand × Operand) :=
  [(none, some 30), (some 29, some 28), (some 27, some 26), (some 25, some 24), (some 23, some 22), (some 21, some 20),
    (some 19, some 18), (some 17, some 16), (some 15, some 14), (some 13, some 12), (some 11, some 10),
      (some 9, some 8),
    (some 7, some 6), (some 5, some 4), (some 3, some 2), (some 1, some 0)]

/-- The entry for an interrupt of the hypervisor itself. `bl` leaves its own address in `x30`. -/
def el2Irq (handler : Cpu → Cpu) (c : Cpu) : Resumed :=
  eret ((handler ((c.pushAll hypContextSave))).popAll hypContextRestore)

theorem hypContextRestore_eq : hypContextRestore = hypContextSave.reverse := by decide

theorem mem_registers_hypContextSave (r : Fin 31) : r ∈ registers hypContextSave := by decide +revert

/-- A handler that keeps its stack balanced and writes nothing above it returns to the interrupted code with all
registers as they were, at whatever `elr_el2` then holds. -/
theorem el2_irq_transparent (handler : Cpu → Cpu) (c : Cpu) (hRoom : 256 ≤ c.sp.toNat)
    (hSp : (handler (c.pushAll hypContextSave)).sp = (c.pushAll hypContextSave).sp)
    (hFrame : ∀ a, (c.pushAll hypContextSave).sp.toNat ≤ a → a < c.sp.toNat →
      (handler (c.pushAll hypContextSave)).mem a = (c.pushAll hypContextSave).mem a) :
    el2Irq handler c = ⟨c.x, (handler (c.pushAll hypContextSave)).sys .spsrEl2,
      (handler (c.pushAll hypContextSave)).sys .elrEl2, c.sp⟩ ∧
    SameOutside c.mem (c.pushAll hypContextSave).mem (c.sp.toNat - 256) 256 := by
  obtain ⟨hPushed, _, _, hMem⟩ := pushAll_frame hypContextSave c hRoom
  refine ⟨?_, hMem⟩
  obtain ⟨hSp', hSys, _, hX⟩ := popAll_pushAll hypContextSave c (handler (c.pushAll hypContextSave)) hRoom hSp
    (fun a hLow hHigh => hFrame a (by rw [hPushed]; exact hLow) hHigh)
  rw [el2Irq, hypContextRestore_eq, eret, hSp', hSys]
  have hRegs : ((handler (c.pushAll hypContextSave)).popAll hypContextSave.reverse).x = c.x := by
    funext r
    exact hX r (mem_registers_hypContextSave r)
  rw [hRegs]

/-- A handler that has used a register. -/
theorem el2_irq_transparent_small : el2Irq (fun c => c.setX 0 5) trappedCpu = eret trappedCpu :=
  (el2_irq_transparent _ trappedCpu (by decide) rfl fun _ _ _ => rfl).1.trans rfl

end HyperPoc.Vector
