import HyperPoc.PageSites
import HyperPoc.Stage2.Order
import HyperPoc.Vm.Create

/-! # The order in which `create_vm` takes its pages

On zeroed pages the walk finds no entry that it has not written itself, so that the allocator alone
decides which page becomes which table and which frame, and at which place the pages run out.
-/
namespace HyperPoc.Stage2
open Library.RadixTable Library.Run
set_option autoImplicit false

def pageRound (n : Nat) : Nat := (n + 4095) / 4096 * 4096

theorem pageRound_max (a b : Nat) : pageRound (max a b) = max (pageRound a) (pageRound b) := by
  rw [pageRound, pageRound, pageRound]
  omega

def ramBytes (cfg : VmConfig) (img : Guest) : Nat := pageRound (max (guestFilesz img) (max img.size cfg.ramSize))

/-- The loop that takes the page of the guest's RAM with number `j`. -/
def ramSite (img : Guest) (j : Nat) : Site :=
  if j * 4096 < guestFilesz img then .file else if j * 4096 < img.size then .bss else .ram

theorem ramSite_file {img : Guest} {j : Nat} (h : j * 4096 < guestFilesz img) : ramSite img j = .file := if_pos h

theorem ramSite_bss {img : Guest} {j : Nat} (hFile : guestFilesz img ≤ j * 4096) (h : j * 4096 < img.size) :
    ramSite img j = .bss := by
  rw [ramSite, if_neg (by omega), if_pos h]

theorem ramSite_ram {img : Guest} {j : Nat} (hFile : guestFilesz img ≤ j * 4096) (h : img.size ≤ j * 4096) :
    ramSite img j = .ram := by
  rw [ramSite, if_neg (by omega), if_neg (by omega)]

def pageFor (site : Site) (a : PageAllocator) : Except Site (PageAllocator × Nat) :=
  if a.allocPage.2 = minusOne then .error site else .ok a.allocPage

def tablesAt (key : Nat) (r : Tables) : Except Site Tables :=
  match addTables key 3 0 r with
  | none => .error .table
  | some r => .ok r

/-- The frame comes first, then the tables that are still missing above it. -/
def layPage (site : Site) (key : Nat) (r : Tables) : Except Site (Nat × Tables) := do
  let (a, frame) ← pageFor site r.1
  let r ← tablesAt key (a, r.2)
  return (frame, r)

/-- The frames of `n` pages from page number `first` on, in the order of their addresses. -/
def layPages (site : Nat → Site) (first : Nat) : Nat → Tables → Except Site (List Nat × Tables)
  | 0, r => .ok ([], r)
  | n + 1, r => do
    let (data, r) ← layPages site first n r
    let (frame, r) ← layPage (site n) (first + n) r
    return (data ++ [frame], r)

/-- The pages behind the root table: the frames of the RAM with the tables above them, and the tables above the
UART page. -/
def layMemory (cfg : VmConfig) (img : Guest) (r : Tables) : Except Site (List Nat × Tables) := do
  let (data, r) ← layPages (ramSite img) (cfg.entrypoint / 4096) (ramBytes cfg img / 4096) r
  let r ← tablesAt (uartBase / 4096) r
  return (data, r)

def layGuest (cfg : VmConfig) (img : Guest) (a : PageAllocator) : Except Site (List Nat × Tables) := do
  let (a, root) ← pageFor .root a
  layMemory cfg img (a, hang (fun _ _ => none) 0 0 root)

theorem pageFor_of_ne {site : Site} {a : PageAllocator} (h : a.allocPage.2 ≠ minusOne) :
    pageFor site a = .ok a.allocPage := if_neg h

theorem tablesAt_of_some {key : Nat} {r r' : Tables} (h : addTables key 3 0 r = some r') : tablesAt key r = .ok r' := by
  rw [tablesAt, h]

theorem layPage_eq {site : Site} {key : Nat} {r r' : Tables} (hNe : r.1.allocPage.2 ≠ minusOne)
    (h : addTables key 3 0 (r.1.allocPage.1, r.2) = some r') : layPage site key r = .ok (r.1.allocPage.2, r') :=
  bind_eq_ok.mpr ⟨_, pageFor_of_ne hNe, bind_eq_ok.mpr ⟨r', tablesAt_of_some h, rfl⟩⟩

theorem layPages_succ {site : Nat → Site} {first n frame : Nat} {data : List Nat} {r r₁ r' : Tables}
    (h : layPages site first n r = .ok (data, r₁)) (hPage : layPage (site n) (first + n) r₁ = .ok (frame, r')) :
    layPages site first (n + 1) r = .ok (data ++ [frame], r') :=
  bind_eq_ok.mpr ⟨_, h, bind_eq_ok.mpr ⟨_, hPage, rfl⟩⟩

section
variable {cfg : VmConfig} {img : Guest} {data : List Nat} {r r₁ r' : Tables}

theorem layMemory_eq
    (hRam : layPages (ramSite img) (cfg.entrypoint / 4096) (ramBytes cfg img / 4096) r = .ok (data, r₁))
    (hUart : tablesAt (uartBase / 4096) r₁ = .ok r') : layMemory cfg img r = .ok (data, r') :=
  bind_eq_ok.mpr ⟨_, hRam, bind_eq_ok.mpr ⟨r', hUart, rfl⟩⟩

theorem layGuest_eq {a : PageAllocator} (hRoot : a.allocPage.2 ≠ minusOne)
    (hMemory : layMemory cfg img (a.allocPage.1, hang (fun _ _ => none) 0 0 a.allocPage.2) = .ok (data, r)) :
    layGuest cfg img a = .ok (data, r) :=
  bind_eq_ok.mpr ⟨_, pageFor_of_ne hRoot, hMemory⟩

end

end HyperPoc.Stage2
