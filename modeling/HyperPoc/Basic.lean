import HyperPoc.Library.Run
import Mathlib.Algebra.Group.Nat.Defs

/-! # Machine integers, outcomes and the memory map -/
namespace HyperPoc
set_option autoImplicit false

/-- The ways a call fails to return: `panic` prints its text and parks the core for ever. -/
inductive Stop
  | panic (text : String)
  | nullDereference
  | outOfBounds
  | diverges
  deriving DecidableEq, Repr

abbrev Outcome := Except Stop

def u64 (n : Nat) : Nat := n % 2 ^ 64

/-- The all-ones word `-1ULL`, the failure value of the page allocator. -/
def minusOne : Nat := 2 ^ 64 - 1

def pageSize : Nat := 4096

def uartBase : Nat := 0x09000000
def gicdBase : Nat := 0x08000000
def gicdSize : Nat := 0x10000
def gicrBase : Nat := 0x080a0000
def gicrSize : Nat := 0xf60000
def virtio0 : Nat := 0x0a000000
def virtio0Size : Nat := 0x10000

def vcpuMax : Nat := 4
def vmMax : Nat := 2

def firstFree (free : Nat → Bool) (n : Nat) : Option Nat := (List.range n).find? free

theorem u64_of_lt {n : Nat} (h : n < 2 ^ 64) : u64 n = n := Nat.mod_eq_of_lt h

end HyperPoc
