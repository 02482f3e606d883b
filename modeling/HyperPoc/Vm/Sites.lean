import HyperPoc.PageSites
import HyperPoc.Vm.Create

/-! # Places of `create_vm` that take a page

The loops of `create_vm`, `new_vgic` and `create_vm` itself with the test of each page as a parameter.
-/
namespace HyperPoc
open Library.Memory Library.Run
set_option autoImplicit false

section
variable (take : Take)

def guestPageWith (site : Site) (content : Mem → Nat → Mem) (stage2Pt ipa : Nat) (h : Host) : Outcome Host := do
  let (h, page) ← take site h
  pagemapWith take { h with mem := content h.mem page } stage2Pt ipa page pageSize (s2pteNormal ||| s2pteRw)

/-- What `create_vm` puts into the page of the guest at offset `p`. -/
def fileContent (img : Guest) (p : Nat) (m : Mem) (page : Nat) : Mem :=
  memcpy m page (u64 (img.start + p)) (if guestFilesz img - p < pageSize then guestFilesz img - p else pageSize)

def bssContent (m : Mem) (page : Nat) : Mem := memset m page 0 pageSize

def filePageWith (img : Guest) (stage2Pt entrypoint : Nat) (h : Host) (p : Nat) : Outcome Host :=
  guestPageWith take .file (fileContent img p) stage2Pt (u64 (entrypoint + p)) h

def bssPageWith (stage2Pt entrypoint : Nat) (h : Host) (p : Nat) : Outcome Host :=
  guestPageWith take .bss bssContent stage2Pt (u64 (entrypoint + p)) h

def ramPageWith (stage2Pt entrypoint : Nat) (h : Host) (p : Nat) : Outcome Host :=
  guestPageWith take .ram (fun m _ => m) stage2Pt (u64 (entrypoint + p)) h

def mapGuestWith (cfg : VmConfig) (img : Guest) (stage2Pt : Nat) (h : Host) : Outcome Host := do
  let rounds := 2 ^ 52 + 1
  let (h, p) ← pageLoop (filePageWith take img stage2Pt cfg.entrypoint) (guestFilesz img) rounds h 0
  let (h, p) ← pageLoop (bssPageWith take stage2Pt cfg.entrypoint) img.size rounds h p
  let (h, _) ← pageLoop (ramPageWith take stage2Pt cfg.entrypoint) cfg.ramSize rounds h p
  pagemapWith take h stage2Pt uartBase uartBase pageSize (s2pteDevice ||| s2pteRw)

def newVgicWith (s : Hypervisor) (vm : Nat) : Outcome (Hypervisor × Nat) :=
  match vgicAlloc s with
  | none => .error (.panic "[new_vgic] no mem")
  | some (s, i) => do
    let (host, spis) ← take .spis s.host
    let vgic :=
      { s.vgics i with
        maxSpiIntid := gicMaxSpi s
        spiNums := gicMaxSpi s - 31
        enableGrp1ns := false
        spis := spis }
    let s := { s with host := host, vgics := Function.update s.vgics i vgic }
    let s ← s2PtTrap s vm gicdBase gicdSize .vgicd
    let s ← s2PtTrap s vm gicrBase gicrSize .vgicr
    return (s, i)

/-- The end of `create_vm`, behind the guest's memory. -/
def finishVmWith (vm : Nat) (s : Hypervisor) : Outcome Hypervisor := do
  let s ← virtioMmioInit s vm
  let (s, vgic) ← newVgicWith take s vm
  let s := s.setVm vm { s.vms vm with vgic := some vgic }
  vcpuReady s ((s.vms vm).vcpus 0)

/-- The second half of `create_vm`, from the root table on. -/
def furnishVmWith (cfg : VmConfig) (img : Guest) (vm : Nat) (s : Hypervisor) : Outcome Hypervisor := do
  let (host, stage2Pt) ← take .root s.host
  let s := { s with host := host }.setVm vm { s.vms vm with stage2Pt := stage2Pt }
  let host ← mapGuestWith take cfg img stage2Pt s.host
  finishVmWith take vm { s with host := host }

def createVmWith (s : Hypervisor) (vmcfg : Option VmConfig) : Outcome Hypervisor :=
  match vmcfg with
  | none => .error (.panic "vmcfg is NULL")
  | some cfg =>
    match cfg.guestImg with
    | none => .error (.panic "vmcfg is NULL")
    | some img =>
      match allocvm s with
      | none => .error (.panic "alloc vm failed")
      | some (s, vm) => do
        let s ← setName s vm cfg.nvcpu img.name
        let s ← addVcpu s vm 0 cfg.entrypoint
        let s ← addVcpusLoop vm (cfg.nvcpu - 1).toNat 1 s
        furnishVmWith take cfg img vm s

end

theorem guestPageWith_takePage {site : Site} (hSite : site ≠ .spis) (content : Mem → Nat → Mem)
    (stage2Pt ipa : Nat) (h : Host) : guestPageWith takePage site content stage2Pt ipa h =
      guestPage site.noMem content stage2Pt ipa h := by
  rw [guestPageWith, guestPage, takePage_of_tested hSite]
  dsimp only
  split
  · rfl
  · exact pagemapWith_takePage _ _ _ _ _ _

theorem filePageWith_takePage (img : Guest) (stage2Pt entrypoint : Nat) :
    filePageWith takePage img stage2Pt entrypoint = filePage img stage2Pt entrypoint := by
  funext h p
  exact guestPageWith_takePage (by decide) _ _ _ _

theorem bssPageWith_takePage (stage2Pt entrypoint : Nat) :
    bssPageWith takePage stage2Pt entrypoint = bssPage stage2Pt entrypoint := by
  funext h p
  exact guestPageWith_takePage (by decide) _ _ _ _

theorem ramPageWith_takePage (stage2Pt entrypoint : Nat) :
    ramPageWith takePage stage2Pt entrypoint = ramPage stage2Pt entrypoint := by
  funext h p
  exact guestPageWith_takePage (by decide) _ _ _ _

theorem mapGuestWith_takePage (cfg : VmConfig) (img : Guest) (stage2Pt : Nat) (h : Host) :
    mapGuestWith takePage cfg img stage2Pt h = mapGuest cfg img stage2Pt h := by
  simp only [mapGuestWith, mapGuest, filePageWith_takePage, bssPageWith_takePage, ramPageWith_takePage,
    pagemapWith_takePage]

theorem newVgicWith_takePage (s : Hypervisor) (vm : Nat) : newVgicWith takePage s vm = newVgic s vm := by
  rw [newVgicWith, newVgic]
  cases vgicAlloc s with
  | none => rfl
  | some r => rfl

theorem createVmWith_takePage (s : Hypervisor) (vmcfg : Option VmConfig) :
    createVmWith takePage s vmcfg = createVm s vmcfg := by
  cases vmcfg with
  | none => rfl
  | some cfg =>
    rw [createVmWith, createVm]
    cases cfg.guestImg with
    | none => rfl
    | some img =>
      cases allocvm s with
      | none => rfl
      | some r =>
        refine bind_congr fun s₁ => bind_congr fun s₂ => bind_congr fun s₃ => ?_
        rw [furnishVmWith, takePage_of_tested (by decide : Site.root ≠ .spis)]
        dsimp only
        split
        · rfl
        · rw [ok_bind, mapGuestWith_takePage]
          refine bind_congr fun h => bind_congr fun s₄ => ?_
          rw [newVgicWith_takePage]

end HyperPoc
