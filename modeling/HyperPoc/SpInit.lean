import HyperPoc.Mmu

/-! # Stacks of the cores

Each core but the first gets one page for its stack. The lowest word of a stack holds a magic number
with the core's number, and the stack pointer starts at the end of the page.
-/
namespace HyperPoc
open Library.Memory
set_option autoImplicit false

/-- `SMP_NUM` as the build sets it. -/
def pcpuNum : Nat := 4

def spMagic : Nat := 0xDEADBEEFDEAD0000

/-- Host memory with the arrays `g_sp_top` and `g_sp_bottom`. -/
structure Stacks where
  host : Host
  spTop : Nat → Nat
  spBottom : Nat → Nat

def Stacks.place (s : Stacks) (cpuid : Nat) (h : Host) (p : Nat) : Stacks where
  host := h.store64 p (spMagic ||| cpuid)
  spTop := Function.update s.spTop cpuid p
  spBottom := Function.update s.spBottom cpuid (u64 (p + pageSize))

def secondaryStack (s : Stacks) (cpuid : Nat) : Outcome Stacks :=
  let (h, p) := s.host.allocPage
  if p = 0 then .error (.panic "[secondary_stacks_init]: no enough memory\n") else .ok (s.place cpuid h p)

def secondaryStacksInit (s : Stacks) : Outcome Stacks := (List.range' 1 (pcpuNum - 1)).foldlM secondaryStack s

end HyperPoc
