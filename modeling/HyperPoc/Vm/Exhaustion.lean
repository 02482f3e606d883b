import HyperPoc.Vm.Trapping
import HyperPoc.Vm.Uses

/-! # Running out of pages

`alloc_page` reports an empty pool with the all-ones word, and its callers test for `NULL` or not at
all. A pool that does not begin at address 0 never hands out `NULL`, so none of the tests ever
fires. Where the pages run out, the failure value is used as an address, with one exception: a page of
plain RAM is only handed to `pagemap`, which refuses an address that is not aligned.
-/
namespace HyperPoc
open Library.Memory Library.RadixTable Library.Run Stage2
set_option autoImplicit false

section
variable {α α' β β' : Type} {x y : Outcome α} {uses : List Use} {lay : Except Site β} {lay' : Except Site β'}
  {f g : α → Outcome α'} {usesAfter : α → List Use}

end

section
variable {a₀ : PageAllocator} {frames : List Nat} {root : Nat} {h : Host} {node : Nat → Nat → Option Nat}

variable {first : Nat} {data : List Nat}

end

section
variable {s : Hypervisor} {cfg : VmConfig} {img : Guest}

end

end HyperPoc
