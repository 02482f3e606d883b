import HyperPoc.Vgic.Handlers

/-! # Trapped loads and stores

A data abort of a guest finds the region that was registered for the address and calls the handler of
the device, whatever the size of the access. The transfer register 31 is the zero register: a store
takes 0 from it, and a load gives the null pointer to the read handler.
-/
namespace HyperPoc.Trap
open Library.Memory Library.Run Vgic
set_option autoImplicit false

/-- The syndrome of a trapped access as the handlers get it. The size of the access is `1 <<< issSas`. -/
structure MmioAccess where
  ipa : Nat
  issSas : Nat
  issWnr : Nat

/-- The first region from node `i` on that holds `ipa`. More nodes than there are in the array are
visited only if the list is cyclic. -/
def findMmio {H : Type} (pool : Nat → MmioInfo H) (ipa : Nat) : Nat → Option Nat → Outcome (Option (MmioInfo H))
  | _, none => .ok none
  | 0, some _ => .error .diverges
  | n + 1, some i =>
    if (pool i).ipaBase ≤ ipa ∧ ipa < u64 ((pool i).ipaBase + (pool i).size) then .ok (some (pool i))
    else findMmio pool ipa n (pool i).next

/-- `n` bounds the rounds of the virtio backend. -/
def callWrite (n : Nat) (b : Board) (cpu vcpu offset val : Nat) : Handler → Outcome (Board × Int)
  | .vgicd => vgicdMmioWrite b cpu vcpu offset val
  | .vgicr => vgicrMmioWrite b cpu vcpu offset val
  | .virtio => do
    let vm ← deref (b.hv.vcpus vcpu).vm
    let s ← Virtio.virtioMmioWrite n (b.backend vm) offset val
    return (b.setBackend s, 0)

def callRead (b : Board) (vcpu offset val : Nat) : Handler → Outcome (Int × Nat)
  | .vgicd => vgicdMmioRead b vcpu offset val
  | .vgicr => vgicrMmioRead b vcpu offset val
  | .virtio => do
    let val ← Virtio.virtioMmioRead offset val
    return (0, val)

/-- What the pointer that the read handler gets points to: a register or address 0. -/
def destination (b : Board) (vcpu regIdx : Nat) : Nat :=
  if regIdx = 31 then load b.hv.host.mem 0 8 else b.x vcpu regIdx

def setDestination (b : Board) (vcpu regIdx val : Nat) : Board :=
  if regIdx = 31 then b.setMem (store b.hv.host.mem 0 8 val) else b.setX vcpu regIdx val

def source (b : Board) (vcpu regIdx : Nat) : Nat := if regIdx = 31 then 0 else b.x vcpu regIdx

def mmioEmulate (n : Nat) (b : Board) (cpu vcpu regIdx : Nat) (access : MmioAccess) : Outcome (Board × Int) := do
  let vm ← deref (b.hv.vcpus vcpu).vm
  match ← findMmio b.hv.mmio access.ipa mmioInfoMax (b.hv.vms vm).mmioList with
  | none => return (b, -1)
  | some mmio =>
    if access.issWnr ≠ 0 then
      match mmio.write with
      | none => return (b, -1)
      | some handler => callWrite n b cpu vcpu (access.ipa - mmio.ipaBase) (source b vcpu regIdx) handler
    else
      match mmio.read with
      | none => return (b, -1)
      | some handler =>
        let (ret, val) ← callRead b vcpu (access.ipa - mmio.ipaBase) (destination b vcpu regIdx) handler
        return (setDestination b vcpu regIdx val, ret)

def esrIss (esr : Nat) : Nat := esr &&& 0x1ffffff
def issSas (iss : Nat) : Nat := (iss &&& 0x3 <<< 22) >>> 22
def issSrt (iss : Nat) : Nat := (iss &&& 0x1f <<< 16) >>> 16
def issFnv (iss : Nat) : Nat := (iss &&& 1 <<< 10) >>> 10
def issWnr (iss : Nat) : Nat := (iss &&& 1 <<< 6) >>> 6

def faultIpa (far hpfar : Nat) : Nat := u64 ((hpfar &&& 0xffffffffff0) <<< 8) ||| (far &&& (pageSize - 1))

def advancePc (b : Board) (vcpu : Nat) : Board := b.setElr vcpu (u64 ((b.hv.vcpus vcpu).elrEl2 + 4))

def dataAbortHandler (n : Nat) (b : Board) (cpu vcpu esr far hpfar : Nat) : Outcome (Board × Int) := do
  let iss := esrIss esr
  if issFnv iss ≠ 0 then return (b, -1)
  else
    let (b, ret) ← mmioEmulate n b cpu vcpu (issSrt iss) ⟨faultIpa far hpfar, issSas iss, issWnr iss⟩
    if ret < 0 then return (b, -1)
    else return (advancePc b vcpu, 0)

/-- A trapped access of a vcpu finds the handler of a device, which sees `offset`. -/
def Hits (s : Hypervisor) (vcpu ipa : Nat) (handler : Handler) (offset : Nat) : Prop :=
  ∃ vm mmio, (s.vcpus vcpu).vm = some vm ∧
    findMmio s.mmio ipa mmioInfoMax (s.vms vm).mmioList = .ok (some mmio) ∧
    mmio.read = some handler ∧ mmio.write = some handler ∧ ipa - mmio.ipaBase = offset

section
variable {b : Board} {vcpu ipa offset : Nat} {handler : Handler}

theorem mmioEmulate_load (h : Hits b.hv vcpu ipa handler offset) (n cpu regIdx sas : Nat) :
    mmioEmulate n b cpu vcpu regIdx ⟨ipa, sas, 0⟩ = (do
      let (ret, val) ← callRead b vcpu offset (destination b vcpu regIdx) handler
      return (setDestination b vcpu regIdx val, ret)) := by
  obtain ⟨vm, mmio, hVm, hFind, hRead, _, rfl⟩ := h
  simp only [mmioEmulate, hVm, deref, ok_bind, hFind, hRead, ne_eq, not_true_eq_false, if_false]

theorem mmioEmulate_store (h : Hits b.hv vcpu ipa handler offset) (n cpu regIdx sas : Nat) {wnr : Nat}
    (hWnr : wnr ≠ 0) :
    mmioEmulate n b cpu vcpu regIdx ⟨ipa, sas, wnr⟩ =
      callWrite n b cpu vcpu offset (source b vcpu regIdx) handler := by
  obtain ⟨vm, mmio, hVm, hFind, _, hWrite, rfl⟩ := h
  simp only [mmioEmulate, hVm, deref, ok_bind, hFind, hWrite, ne_eq, hWnr, not_false_eq_true, if_true]

end

end HyperPoc.Trap
