import HyperPoc.Vm.State

/-! # Creating a VM

`create_vm` builds the stage-2 tables of the guest with three loops over one cursor: pages of the
image file, the rest of the image's memory, the rest of the RAM. Then it maps the UART and sets up
the trapped windows.
-/
namespace HyperPoc
open Library.Memory
set_option autoImplicit false

def s2PtTrap (s : Hypervisor) (vm ipa size : Nat) (handler : Handler) : Outcome Hypervisor := do
  let stage2Pt := (s.vms vm).stage2Pt
  let (host, pte) ← pagewalk s.host stage2Pt ipa false
  let host ← (if pte ≠ 0 then pageunmap host stage2Pt ipa size else .ok host : Outcome Host)
  match mmioRegHandler s.mmio (s.vms vm).mmioList ipa size (some handler) (some handler) with
  | ((mmio, mmioList), ret) =>
    if ret < 0 then .error (.panic "mmio_reg_handler failed")
    else .ok ({ s with host := host, mmio := mmio }.setVm vm { s.vms vm with mmioList := mmioList })

def virtioMmioInit (s : Hypervisor) (vm : Nat) : Outcome Hypervisor :=
  s2PtTrap s vm virtio0 virtio0Size .virtio

def newVgic (s : Hypervisor) (vm : Nat) : Outcome (Hypervisor × Nat) :=
  match vgicAlloc s with
  | none => .error (.panic "[new_vgic] no mem")
  | some (s, i) => do
    let (host, spis) := s.host.allocPage
    let vgic :=
      { s.vgics i with
        maxSpiIntid := gicMaxSpi s
        spiNums := gicMaxSpi s - 31
        enableGrp1ns := false
        spis := spis }
    let s := { s with host := host, vgics := Function.update s.vgics i vgic }
    let s ← s2PtTrap s vm gicdBase gicdSize .vgicd
    let s ← s2PtTrap s vm gicrBase gicrSize .vgicr
    return (s, i)

/-- `strcpy` into an array of 64 characters. -/
def setName (s : Hypervisor) (vm : Nat) (nvcpu : Int) : Option String → Outcome Hypervisor
  | none => .error .nullDereference
  | some name =>
    if name.utf8ByteSize < 64 then .ok (s.setVm vm { s.vms vm with nvcpu := nvcpu, name := name })
    else .error .outOfBounds

def addVcpu (s : Hypervisor) (vm i entrypoint : Nat) : Outcome Hypervisor :=
  let (s, vcpu) := newVcpu s vm i entrypoint
  if i < vcpuMax then
    .ok (s.setVm vm { s.vms vm with vcpus := Function.update (s.vms vm).vcpus i vcpu })
  else .error .outOfBounds

def addVcpusLoop (vm : Nat) : Nat → Nat → Hypervisor → Outcome Hypervisor
  | 0, _, s => .ok s
  | n + 1, i, s => do
    let s ← addVcpu s vm i 0
    addVcpusLoop vm n (i + 1) s

/-- The rounds of `for (; p < limit; p += PAGE_SIZE)`. After 2^52 rounds the cursor has wrapped and
the loop goes on for ever. -/
def pageLoop (body : Host → Nat → Outcome Host) (limit : Nat) : Nat → Host → Nat → Outcome (Host × Nat)
  | 0, _, _ => .error .diverges
  | n + 1, h, p =>
    if p < limit then do
      let h ← body h p
      pageLoop body limit n h (u64 (p + pageSize))
    else .ok (h, p)

def guestPage (noMem : String) (content : Mem → Nat → Mem) (stage2Pt ipa : Nat) (h : Host) : Outcome Host :=
  let (h, page) := h.allocPage
  if page = 0 then .error (.panic noMem)
  else pagemap { h with mem := content h.mem page } stage2Pt ipa page pageSize (s2pteNormal ||| s2pteRw)

def guestFilesz (img : Guest) : Nat := u64 (img.stop + 2 ^ 64 - img.start)

def filePage (img : Guest) (stage2Pt entrypoint : Nat) (h : Host) (p : Nat) : Outcome Host :=
  guestPage "[create_vm] no mem 2"
    (fun m page => memcpy m page (u64 (img.start + p))
      (if guestFilesz img - p < pageSize then guestFilesz img - p else pageSize))
    stage2Pt (u64 (entrypoint + p)) h

def bssPage (stage2Pt entrypoint : Nat) (h : Host) (p : Nat) : Outcome Host :=
  guestPage "[create_vm] no mem 3" (fun m page => memset m page 0 pageSize) stage2Pt (u64 (entrypoint + p)) h

/-- A page of RAM behind the image; its content is left as `alloc_page` gave it. -/
def ramPage (stage2Pt entrypoint : Nat) (h : Host) (p : Nat) : Outcome Host :=
  guestPage "[create_vm] no mem 3" (fun m _ => m) stage2Pt (u64 (entrypoint + p)) h

def mapGuest (cfg : VmConfig) (img : Guest) (stage2Pt : Nat) (h : Host) : Outcome Host := do
  let rounds := 2 ^ 52 + 1
  let (h, p) ← pageLoop (filePage img stage2Pt cfg.entrypoint) (guestFilesz img) rounds h 0
  let (h, p) ← pageLoop (bssPage stage2Pt cfg.entrypoint) img.size rounds h p
  let (h, _) ← pageLoop (ramPage stage2Pt cfg.entrypoint) cfg.ramSize rounds h p
  pagemap h stage2Pt uartBase uartBase pageSize (s2pteDevice ||| s2pteRw)

def createVm (s : Hypervisor) (vmcfg : Option VmConfig) : Outcome Hypervisor :=
  match vmcfg with
  | none => .error (.panic "vmcfg is NULL")
  | some cfg =>
    match cfg.guestImg with
    | none => .error (.panic "vmcfg is NULL")
    | some img =>
      match allocvm s with
      | none => .error (.panic "alloc vm failed")
      | some (s, vm) => do
        let s ← setName s vm cfg.nvcpu img.name
        let s ← addVcpu s vm 0 cfg.entrypoint
        let s ← addVcpusLoop vm (cfg.nvcpu - 1).toNat 1 s
        let (host, stage2Pt) := s.host.allocPage
        let s := { s with host := host }.setVm vm { s.vms vm with stage2Pt := stage2Pt }
        if stage2Pt = 0 then .error (.panic "[create_vm] no mem")
        else do
          let host ← mapGuest cfg img stage2Pt s.host
          let s ← virtioMmioInit { s with host := host } vm
          let (s, vgic) ← newVgic s vm
          let s := s.setVm vm { s.vms vm with vgic := some vgic }
          vcpuReady s ((s.vms vm).vcpus 0)

end HyperPoc
