import HyperPoc.Trap.Sync
import HyperPoc.Trap.Unemulated

/-! # What the traps of one VM leave alone

A synchronous trap runs the hypervisor on behalf of one vcpu. Three accesses let it write where the
guest likes: a load into the zero register, a notification of the queue, and a priority register of
a redistributor frame behind the first. All other traps, in any number and from any registers,
change host memory only in the SPI records of the VM and leave the records of other VMs alone.
-/
namespace HyperPoc.Trap
open Library.Memory Library.Run Vgic
set_option autoImplicit false

/-- Byte `a` belongs to one of the SPI records that start at `spis`. -/
def SpiByte (spis a : Nat) : Prop := ∃ m f, m < 992 ∧ f < 3 ∧ a = u64 (u64 (spis + 3 * m) + f)

/-- The vcpu is one of VM `i`, whose SPI records are at `spis`. -/
structure Serves (s : Hypervisor) (vcpu i spis : Nat) : Prop where
  vm : (s.vcpus vcpu).vm = some i
  entries : ∀ k u, k < vcpuMax → (s.vms i).vcpus k = some u → (s.vcpus u).vm = some i
  spis : ∀ g, (s.vms i).vgic = some g → (s.vgics g).spis = spis

/-- From `s` to `s'` only the emulated interrupt controller of VM `i` has changed, and memory in `S`. -/
structure Stays (i : Nat) (S : Nat → Prop) (s s' : Hypervisor) : Prop where
  mem : ∀ a, ¬S a → s'.host.mem a = s.host.mem a
  pages : s'.host.allocator = s.host.allocator ∧ s'.host.grants = s.host.grants
  vms : s'.vms = s.vms
  mmio : s'.mmio = s.mmio
  vcpus : s'.vcpus = s.vcpus
  vgics : ∀ g, ∃ on, s'.vgics g = { s.vgics g with enableGrp1ns := on }
  otherVgics : ∀ g, (s.vms i).vgic ≠ some g → s'.vgics g = s.vgics g
  otherCpus : ∀ g, (∀ u, (s.vcpus u).vm = some i → (s.vcpus u).vgic ≠ some g) → s'.vgicCpus g = s.vgicCpus g

/-- Writing through the pointer stays within VM `i` and `S`. -/
def Allowed (i : Nat) (S : Nat → Prop) (s : Hypervisor) : IrqRef → Prop
  | .cpu g _ _ => ∃ u, (s.vcpus u).vm = some i ∧ (s.vcpus u).vgic = some g
  | .mem a => ∀ f, f < 3 → S (u64 (a + f))

section
variable {i : Nat} {S : Nat → Prop} {s s₁ s₂ : Hypervisor}

theorem stays_refl (i : Nat) (S : Nat → Prop) (s : Hypervisor) : Stays i S s s where
  mem := fun _ _ => rfl
  pages := ⟨rfl, rfl⟩
  vms := rfl
  mmio := rfl
  vcpus := rfl
  vgics := fun g => ⟨(s.vgics g).enableGrp1ns, rfl⟩
  otherVgics := fun _ _ => rfl
  otherCpus := fun _ _ => rfl

theorem Stays.trans (h : Stays i S s s₁) (h' : Stays i S s₁ s₂) : Stays i S s s₂ where
  mem := fun a ha => (h'.mem a ha).trans (h.mem a ha)
  pages := ⟨h'.pages.1.trans h.pages.1, h'.pages.2.trans h.pages.2⟩
  vms := h'.vms.trans h.vms
  mmio := h'.mmio.trans h.mmio
  vcpus := h'.vcpus.trans h.vcpus
  vgics := by
    intro g
    obtain ⟨on, hFirst⟩ := h.vgics g
    obtain ⟨on', hSecond⟩ := h'.vgics g
    exact ⟨on', by rw [hSecond, hFirst]⟩
  otherVgics := by
    intro g hg
    rw [h'.otherVgics g (by rw [h.vms]; exact hg), h.otherVgics g hg]
  otherCpus := by
    intro g hg
    rw [h'.otherCpus g (by rw [h.vcpus]; exact hg), h.otherCpus g hg]

theorem stays_writeIrq {r : IrqRef} (hr : Allowed i S s r) (a : IrqWrite) : Stays i S s (writeIrq s a r) := by
  have hRefl := stays_refl i S s
  cases r with
  | cpu g bank k =>
    refine { hRefl with otherCpus := ?_ }
    intro g' hg'
    obtain ⟨u, hVm, hVgic⟩ := hr
    have hNe : g' ≠ g := by
      rintro rfl
      exact hg' u hVm hVgic
    exact Function.update_of_ne hNe _ _
  | mem b =>
    refine { hRefl with mem := ?_ }
    intro c hc
    refine if_neg ?_
    rintro rfl
    exact hc (hr a.field (field_lt a))

theorem Stays.vgicIrqGet (h : Stays i S s s₁) (vcpu : Nat) (intid : Int) :
    vgicIrqGet s₁ vcpu intid = vgicIrqGet s vcpu intid := by
  have hSpis : ∀ g, (s₁.vgics g).spis = (s.vgics g).spis := by
    intro g
    obtain ⟨on, hg⟩ := h.vgics g
    rw [hg]
  rw [Vgic.vgicIrqGet, Vgic.vgicIrqGet, h.vcpus, h.vms]
  simp only [hSpis]

/-- The pointers the handlers get for a vcpu of the VM: below 32 into its vgic cpu, else to the SPI records. -/
theorem Serves.allowed {vcpu u spis : Nat} {r : IrqRef} {m : Nat} (h : Serves s vcpu i spis)
    (hu : (s.vcpus u).vm = some i) (hm : m < 1024) (hGet : vgicIrqGet s u (m : Int) = .ok (some r)) :
    Allowed i (SpiByte spis) s r := by
  rw [Vgic.vgicIrqGet, hu] at hGet
  split at hGet
  · obtain ⟨g, hg, rfl⟩ := Option.map_eq_some_iff.mp (Except.ok.inj hGet)
    exact ⟨u, hu, hg⟩
  split at hGet
  · obtain ⟨g, hg, rfl⟩ := Option.map_eq_some_iff.mp (Except.ok.inj hGet)
    exact ⟨u, hu, hg⟩
  split at hGet
  · dsimp only at hGet
    cases hVgic : (s.vms i).vgic with
    | none =>
      rw [hVgic] at hGet
      cases hGet
    | some g =>
      rw [hVgic] at hGet
      cases hGet
      intro f hf
      exact ⟨((m : Int) - 32).toNat, f, by omega, hf, by rw [h.spis g hVgic]⟩
  · cases hGet

end

/-- A handler has returned without touching registers of a vcpu. -/
def Quiet (i : Nat) (S : Nat → Prop) (b b' : Board) : Prop := Stays i S b.hv b'.hv ∧ b'.x = b.x

section
variable {i vcpu spis : Nat} {b b' : Board}

theorem quiet_refl (i : Nat) (S : Nat → Prop) (b : Board) : Quiet i S b b := ⟨stays_refl i S b.hv, rfl⟩

theorem Quiet.trans {S : Nat → Prop} {b₁ b₂ : Board} (h : Quiet i S b b₁) (h' : Quiet i S b₁ b₂) :
    Quiet i S b b₂ :=
  ⟨h.1.trans h'.1, h'.2.trans h.2⟩

theorem Serves.congr {S : Nat → Prop} {s s' : Hypervisor} (h : Serves s vcpu i spis) (hStays : Stays i S s s') :
    Serves s' vcpu i spis := by
  refine ⟨?_, ?_, ?_⟩
  · rw [hStays.vcpus]
    exact h.vm
  · rw [hStays.vcpus, hStays.vms]
    exact h.entries
  · intro g hg
    rw [hStays.vms] at hg
    obtain ⟨on, hEq⟩ := hStays.vgics g
    rw [hEq]
    exact h.spis g hg

/-- A loop over records stays within the VM if its body does so with every pointer it may get. -/
theorem writeLoop_quiet {n u m : Nat} {body : Board → Nat → Option IrqRef → Outcome Board}
    (h : Serves b.hv vcpu i spis) (hu : (b.hv.vcpus u).vm = some i) (hm : m + n ≤ 1024)
    (hBody : ∀ b k r b', (∀ q, r = some q → Allowed i (SpiByte spis) b.hv q) → body b k r = .ok b' →
      Quiet i (SpiByte spis) b b')
    (hLoop : writeLoop n u (m : Int) body b = .ok b') : Quiet i (SpiByte spis) b b' := by
  refine foldlM_simulation (τ := Unit) _ (fun _ _ => ()) (fun b₁ _ => Quiet i (SpiByte spis) b b₁)
    (List.range n) ?_ b () b' (quiet_refl _ _ b) hLoop
  intro k hk b₁ _ b₂ hQuiet hStep
  have hLt := List.mem_range.mp hk
  obtain ⟨r, hGet, hRest⟩ := bind_eq_ok.mp hStep
  refine hQuiet.trans (hBody b₁ k r b₂ ?_ hRest)
  rintro q rfl
  have hServes := h.congr hQuiet.1
  refine hServes.allowed (u := u) (m := m + k) ?_ (by omega) ?_
  · rw [hQuiet.1.vcpus]
    exact hu
  · rw [Int.natCast_add]
    exact hGet

theorem deref_eq_ok {α : Type} {o : Option α} {a : α} (h : deref o = .ok a) : o = some a := by
  cases o with
  | none => cases h
  | some a' =>
    cases h
    rfl

theorem writeEnables_quiet {u m cpu val : Nat} {on : Bool} (h : Serves b.hv vcpu i spis)
    (hu : (b.hv.vcpus u).vm = some i) (hm : m + 32 ≤ 1024) (hRun : writeEnables b cpu u (m : Int) val on = .ok b') :
    Quiet i (SpiByte spis) b b' := by
  apply writeLoop_quiet h hu hm ?_ hRun
  intro b k r b' hr hBody
  split at hBody
  · obtain ⟨q, hq, hRest⟩ := bind_eq_ok.mp hBody
    have hWrite := hr q (deref_eq_ok hq)
    split at hRest
    · rw [vgicIrqEnable] at hRest
      split at hRest
      · cases hRest
        exact ⟨stays_writeIrq hWrite _, rfl⟩
      · cases hRest
    · rw [vgicIrqDisable] at hRest
      split at hRest
      · cases hRest
        exact ⟨stays_writeIrq hWrite _, rfl⟩
      · cases hRest
  · cases hBody
    exact quiet_refl _ _ b

theorem writePriorities_quiet {u m val : Nat} (h : Serves b.hv vcpu i spis) (hu : (b.hv.vcpus u).vm = some i)
    (hm : m + 4 ≤ 1024) (hRun : writePriorities b u (m : Int) val = .ok b') : Quiet i (SpiByte spis) b b' := by
  apply writeLoop_quiet h hu hm ?_ hRun
  intro b k r b' hr hBody
  obtain ⟨q, hq, hRest⟩ := bind_eq_ok.mp hBody
  cases hRest
  exact ⟨stays_writeIrq (hr q (deref_eq_ok hq)) _, rfl⟩

theorem writeTargets_quiet {u m cpu val : Nat} (h : Serves b.hv vcpu i spis) (hu : (b.hv.vcpus u).vm = some i)
    (hm : m + 4 ≤ 1024) (hRun : writeTargets b cpu u (m : Int) val = .ok b') : Quiet i (SpiByte spis) b b' := by
  apply writeLoop_quiet h hu hm ?_ hRun
  intro b k r b' hr hBody
  obtain ⟨q, hq, hRest⟩ := bind_eq_ok.mp hBody
  dsimp only at hRest
  split at hRest
  · cases hRest
    exact ⟨stays_writeIrq (hr q (deref_eq_ok hq)) _, rfl⟩
  · cases hRest

theorem vgicdMmioWrite_quiet {cpu offset val : Nat} {ret : Int} (h : Serves b.hv vcpu i spis)
    (hRun : vgicdMmioWrite b cpu vcpu offset val = .ok (b', ret)) : Quiet i (SpiByte spis) b b' := by
  rw [vgicdMmioWrite, h.vm, deref, ok_bind] at hRun
  cases hReg : gicdReg offset with
  | none =>
    rw [hReg] at hRun
    cases hRun
    exact quiet_refl _ _ b
  | some reg =>
    rw [hReg] at hRun
    have hCovers := gicdReg_covers hReg
    cases reg with
    | ctlr =>
      obtain ⟨g, hg, hRest⟩ := bind_eq_ok.mp hRun
      have hVgic := deref_eq_ok hg
      cases hRest
      refine ⟨{ stays_refl i (SpiByte spis) b.hv with vgics := ?_, otherVgics := ?_ }, rfl⟩
      · intro g'
        obtain rfl | hNe := eq_or_ne g' g
        · exact ⟨_, Function.update_self _ _ _⟩
        · exact ⟨_, Function.update_of_ne hNe _ _⟩
      · intro g' hg'
        have hNe : g' ≠ g := by
          rintro rfl
          exact hg' hVgic
        exact Function.update_of_ne hNe _ _
    | isenabler n | icenabler n =>
      obtain ⟨b₁, hLoop, hRest⟩ := bind_eq_ok.mp hRun
      cases hRest
      obtain ⟨_, _, hn⟩ := hCovers
      exact writeEnables_quiet h h.vm (by omega) hLoop
    | ipriorityr n =>
      obtain ⟨b₁, hLoop, hRest⟩ := bind_eq_ok.mp hRun
      cases hRest
      obtain ⟨_, _, hn⟩ := hCovers
      exact writePriorities_quiet h h.vm (by omega) hLoop
    | itargetsr n =>
      obtain ⟨b₁, hLoop, hRest⟩ := bind_eq_ok.mp hRun
      cases hRest
      obtain ⟨_, _, hn⟩ := hCovers
      exact writeTargets_quiet h h.vm (by omega) hLoop
    | _ =>
      cases hRun
      exact ⟨stays_refl _ _ _, rfl⟩

/-- The vcpu whose redistributor frame is accessed is one of the same VM. -/
theorem Serves.frame {s : Hypervisor} {offset : Nat} {frame : Option Nat} (h : Serves s vcpu i spis)
    (hFrame : gicrFrame s vcpu offset = .ok (some frame)) : ∀ u, frame = some u → (s.vcpus u).vm = some i := by
  rw [gicrFrame, h.vm, deref, ok_bind] at hFrame
  dsimp only at hFrame
  split at hFrame
  · cases hFrame
  split at hFrame
  · rename_i hIdx
    cases hFrame
    exact fun u hu => h.entries _ u hIdx hu
  · cases hFrame

theorem gicrReg_ipriorityr {offset : Nat} (h : gicrReg offset = some .ipriorityr) :
    0x10400 ≤ offset ∧ offset ≤ 0x1041c := by
  unfold gicrReg at h
  iterate 11
    obtain ⟨_, hEq⟩ | ⟨_, h⟩ := eq_some_cases h
    · cases hEq
  obtain ⟨hOffset, _⟩ | ⟨_, h⟩ := eq_some_cases h
  · exact hOffset
  iterate 2
    obtain ⟨_, hEq⟩ | ⟨_, h⟩ := eq_some_cases h
    · cases hEq
  cases h

theorem vgicrMmioWrite_quiet {cpu offset val : Nat} {ret : Int} (h : Serves b.hv vcpu i spis)
    (hFirst : gicrReg (offset % gicrStride) = some .ipriorityr → offset < gicrStride)
    (hRun : vgicrMmioWrite b cpu vcpu offset val = .ok (b', ret)) : Quiet i (SpiByte spis) b b' := by
  obtain ⟨frame, hFrame, hRun⟩ := bind_eq_ok.mp hRun
  cases frame with
  | none =>
    cases hRun
    exact quiet_refl _ _ b
  | some frame =>
    have hOwn := h.frame hFrame
    dsimp only at hRun
    cases hReg : gicrReg (offset % gicrStride) with
    | none =>
      rw [hReg] at hRun
      cases hRun
      exact quiet_refl _ _ b
    | some reg =>
      rw [hReg] at hRun hFirst
      cases reg with
      | isenabler0 | icenabler0 =>
        obtain ⟨u, hu, hRest⟩ := bind_eq_ok.mp hRun
        obtain ⟨b₁, hLoop, hLast⟩ := bind_eq_ok.mp hRest
        cases hLast
        exact writeEnables_quiet (m := 0) h (hOwn u (deref_eq_ok hu)) (by decide) hLoop
      | ipriorityr =>
        obtain ⟨u, hu, hRest⟩ := bind_eq_ok.mp hRun
        obtain ⟨b₁, hLoop, hLast⟩ := bind_eq_ok.mp hRest
        cases hLast
        have hLt := hFirst rfl
        rw [Nat.mod_eq_of_lt hLt] at hReg
        have hOffset := gicrReg_ipriorityr hReg
        have hIntid : gicrPriorityIntid offset = ((offset - 0x10400) / 4 * 4 : Nat) := toInt32_of_lt (by omega)
        rw [hIntid] at hLoop
        exact writePriorities_quiet h (hOwn u (deref_eq_ok hu)) (by omega) hLoop
      | _ =>
        cases hRun
        exact quiet_refl _ _ b

theorem virtioMmioWrite_host {n offset val : Nat} {s s' : Virtio.Backend} (hOffset : offset ≠ 0x50)
    (h : Virtio.virtioMmioWrite n s offset val = .ok s') : s'.host = s.host := by
  unfold Virtio.virtioMmioWrite at h
  split at h
  case h_2 =>
    split at h
    · cases h
    · cases h
      rfl
  case h_6 =>
    obtain ⟨pa, _, hEq⟩ := bind_eq_ok.mp h
    cases hEq
    rfl
  case h_8 => exact (hOffset rfl).elim
  all_goals
    cases h <;> rfl

/-- The stores whose handlers write where the guest likes. -/
def WildStore (handler : Handler) (offset : Nat) : Prop :=
  handler = .virtio ∧ offset = 0x50 ∨
    handler = .vgicr ∧ gicrReg (offset % gicrStride) = some .ipriorityr ∧ gicrStride ≤ offset

theorem callWrite_quiet {n cpu offset val : Nat} {handler : Handler} {ret : Int} (h : Serves b.hv vcpu i spis)
    (hPlain : ¬WildStore handler offset) (hRun : callWrite n b cpu vcpu offset val handler = .ok (b', ret)) :
    Quiet i (SpiByte spis) b b' := by
  cases handler with
  | vgicd => exact vgicdMmioWrite_quiet h hRun
  | vgicr =>
    apply vgicrMmioWrite_quiet h ?_ hRun
    intro hReg
    by_contra hFar
    exact hPlain (.inr ⟨rfl, hReg, Nat.le_of_not_lt hFar⟩)
  | virtio =>
    obtain ⟨vm, _, hRest⟩ := bind_eq_ok.mp hRun
    obtain ⟨s, hWrite, hLast⟩ := bind_eq_ok.mp hRest
    cases hLast
    have hHost : s.host = b.hv.host := virtioMmioWrite_host (fun hOffset => hPlain (.inl ⟨rfl, hOffset⟩)) hWrite
    refine ⟨?_, rfl⟩
    have hSame : (b.setBackend s).hv = b.hv := by
      rw [Board.setBackend, hHost]
    rw [hSame]
    exact stays_refl _ _ _

end

/-- No access of the trap writes where the guest likes. -/
structure Plain (s : Hypervisor) (vcpu esr far hpfar : Nat) : Prop where
  load : issWnr (esrIss esr) = 0 → issSrt (esrIss esr) ≠ 31
  store : ∀ mmio handler, issWnr (esrIss esr) ≠ 0 → Selects s vcpu (faultIpa far hpfar) (some mmio) →
    mmio.write = some handler → ¬WildStore handler (faultIpa far hpfar - mmio.ipaBase)

/-- From `b` to `b'` only VM `i` has been served: host memory outside its SPI records, the page allocator, the VMs, the
regions, and all that belongs to the vcpus of other VMs are as before. -/
structure Contained (i spis : Nat) (b b' : Board) : Prop where
  mem : ∀ a, ¬SpiByte spis a → b'.hv.host.mem a = b.hv.host.mem a
  pages : b'.hv.host.allocator = b.hv.host.allocator ∧ b'.hv.host.grants = b.hv.host.grants
  vms : b'.hv.vms = b.hv.vms
  mmio : b'.hv.mmio = b.hv.mmio
  vcpus : ∀ u, ∃ pc st, b'.hv.vcpus u = { b.hv.vcpus u with elrEl2 := pc, state := st } ∧
    (st = (b.hv.vcpus u).state ∨ st = .ready ∧ ∃ k, k < vcpuMax ∧ (b.hv.vms i).vcpus k = some u)
  otherVcpus : ∀ u, (b.hv.vcpus u).vm ≠ some i → b'.hv.vcpus u = b.hv.vcpus u ∧ b'.x u = b.x u
  vgics : ∀ g, ∃ on, b'.hv.vgics g = { b.hv.vgics g with enableGrp1ns := on }
  otherVgics : ∀ g, (b.hv.vms i).vgic ≠ some g → b'.hv.vgics g = b.hv.vgics g
  otherCpus : ∀ g, (∀ u, (b.hv.vcpus u).vm = some i → (b.hv.vcpus u).vgic ≠ some g) →
    b'.hv.vgicCpus g = b.hv.vgicCpus g

section
variable {i vcpu spis : Nat} {b b₁ b' : Board}

theorem Contained.vm (h : Contained i spis b b') (u : Nat) : (b'.hv.vcpus u).vm = (b.hv.vcpus u).vm := by
  obtain ⟨pc, st, hEq, _⟩ := h.vcpus u
  rw [hEq]

theorem Contained.vgic (h : Contained i spis b b') (u : Nat) : (b'.hv.vcpus u).vgic = (b.hv.vcpus u).vgic := by
  obtain ⟨pc, st, hEq, _⟩ := h.vcpus u
  rw [hEq]

theorem Contained.trans (h : Contained i spis b b₁) (h' : Contained i spis b₁ b') : Contained i spis b b' where
  mem := fun a ha => (h'.mem a ha).trans (h.mem a ha)
  pages := ⟨h'.pages.1.trans h.pages.1, h'.pages.2.trans h.pages.2⟩
  vms := h'.vms.trans h.vms
  mmio := h'.mmio.trans h.mmio
  vcpus := by
    intro u
    obtain ⟨pc, st, hFirst, hState⟩ := h.vcpus u
    obtain ⟨pc', st', hSecond, hState'⟩ := h'.vcpus u
    refine ⟨pc', st', by rw [hSecond, hFirst], ?_⟩
    obtain hSame | hReady := hState'
    · rw [hFirst] at hSame
      rw [hSame]
      exact hState
    · rw [h.vms] at hReady
      exact .inr hReady
  otherVcpus := by
    intro u hu
    obtain ⟨hFirst, hX⟩ := h.otherVcpus u hu
    obtain ⟨hSecond, hX'⟩ := h'.otherVcpus u (by rw [h.vm]; exact hu)
    exact ⟨hSecond.trans hFirst, hX'.trans hX⟩
  vgics := by
    intro g
    obtain ⟨on, hFirst⟩ := h.vgics g
    obtain ⟨on', hSecond⟩ := h'.vgics g
    exact ⟨on', by rw [hSecond, hFirst]⟩
  otherVgics := by
    intro g hg
    rw [h'.otherVgics g (by rw [h.vms]; exact hg), h.otherVgics g hg]
  otherCpus := by
    intro g hg
    rw [h'.otherCpus g (fun u hu => by rw [h.vgic]; exact hg u ((h.vm u).symm.trans hu)), h.otherCpus g hg]

theorem Quiet.contained (h : Quiet i (SpiByte spis) b b') : Contained i spis b b' where
  mem := h.1.mem
  pages := h.1.pages
  vms := h.1.vms
  mmio := h.1.mmio
  vcpus := fun u => ⟨_, _, by rw [h.1.vcpus], .inl rfl⟩
  otherVcpus := fun u _ => ⟨congrFun h.1.vcpus u, congrFun h.2 u⟩
  vgics := h.1.vgics
  otherVgics := h.1.otherVgics
  otherCpus := h.1.otherCpus

/-- What changes nothing but the pc, the state and the registers of vcpus of the VM. -/
theorem contained_of_vcpus (hHv : b'.hv = { b.hv with vcpus := b'.hv.vcpus })
    (hVcpus : ∀ u, ∃ pc st, b'.hv.vcpus u = { b.hv.vcpus u with elrEl2 := pc, state := st } ∧
      (st = (b.hv.vcpus u).state ∨ st = .ready ∧ ∃ k, k < vcpuMax ∧ (b.hv.vms i).vcpus k = some u))
    (hOthers : ∀ u, (b.hv.vcpus u).vm ≠ some i → b'.hv.vcpus u = b.hv.vcpus u ∧ b'.x u = b.x u) :
    Contained i spis b b' where
  mem := fun a _ => by rw [hHv]
  pages := by
    rw [hHv]
    exact ⟨rfl, rfl⟩
  vms := by rw [hHv]
  mmio := by rw [hHv]
  vcpus := hVcpus
  otherVcpus := hOthers
  vgics := fun g => ⟨(b.hv.vgics g).enableGrp1ns, by rw [hHv]⟩
  otherVgics := fun g _ => by rw [hHv]
  otherCpus := fun g _ => by rw [hHv]

theorem contained_setX (hVm : (b.hv.vcpus vcpu).vm = some i) (t v : Nat) : Contained i spis b (b.setX vcpu t v) := by
  refine contained_of_vcpus rfl (fun u => ⟨_, _, rfl, .inl rfl⟩) ?_
  intro u hu
  have hNe : u ≠ vcpu := by
    rintro rfl
    exact hu hVm
  exact ⟨rfl, Function.update_of_ne hNe _ _⟩

theorem contained_setElr (hVm : (b.hv.vcpus vcpu).vm = some i) (pc : Nat) : Contained i spis b (b.setElr vcpu pc) := by
  refine contained_of_vcpus rfl ?_ ?_
  · intro u
    obtain rfl | hNe := eq_or_ne u vcpu
    · exact ⟨pc, _, Function.update_self _ _ _, .inl rfl⟩
    · exact ⟨_, _, Function.update_of_ne hNe _ _, .inl rfl⟩
  · intro u hu
    have hNe : u ≠ vcpu := by
      rintro rfl
      exact hu hVm
    exact ⟨Function.update_of_ne hNe _ _, rfl⟩

theorem vcpuReady_contained {s : Hypervisor} {k : Nat} (hk : k < vcpuMax) (hEntry : (b.hv.vms i).vcpus k = some vcpu)
    (hVm : (b.hv.vcpus vcpu).vm = some i) (hReady : vcpuReady b.hv (some vcpu) = .ok s) :
    Contained i spis b { b with hv := s } := by
  cases hReady
  refine contained_of_vcpus rfl ?_ ?_
  · intro u
    obtain rfl | hNe := eq_or_ne u vcpu
    · exact ⟨_, .ready, Function.update_self _ _ _, .inr ⟨rfl, k, hk, hEntry⟩⟩
    · exact ⟨_, _, Function.update_of_ne hNe _ _, .inl rfl⟩
  · intro u hu
    have hNe : u ≠ vcpu := by
      rintro rfl
      exact hu hVm
    exact ⟨Function.update_of_ne hNe _ _, rfl⟩

theorem Serves.contained (h : Serves b.hv vcpu i spis) (hContained : Contained i spis b b') :
    Serves b'.hv vcpu i spis := by
  refine ⟨(hContained.vm vcpu).trans h.vm, ?_, ?_⟩
  · intro k u hk hu
    rw [hContained.vms] at hu
    exact (hContained.vm u).trans (h.entries k u hk hu)
  · intro g hg
    rw [hContained.vms] at hg
    obtain ⟨on, hEq⟩ := hContained.vgics g
    rw [hEq]
    exact h.spis g hg

theorem Plain.contained {esr far hpfar : Nat} (h : Plain b.hv vcpu esr far hpfar) (hContained : Contained i spis b b') :
    Plain b'.hv vcpu esr far hpfar := by
  refine ⟨h.load, ?_⟩
  rintro mmio handler hWnr ⟨vm, hVm, hFind⟩ hHandler
  rw [hContained.mmio, hContained.vms] at hFind
  exact h.store mmio handler hWnr ⟨vm, (hContained.vm vcpu).symm.trans hVm, hFind⟩ hHandler

theorem psciCpuOn_contained {fw x1 x2 ret : Nat} (h : Serves b.hv vcpu i spis)
    (hRun : psciCpuOn fw b vcpu x1 x2 = .ok (b', ret)) : Contained i spis b b' := by
  rw [psciCpuOn, h.vm, deref, ok_bind] at hRun
  dsimp only at hRun
  split at hRun
  · rename_i hIdx
    obtain ⟨target, hTarget, hRest⟩ := bind_eq_ok.mp hRun
    obtain ⟨s, hReady, hLast⟩ := bind_eq_ok.mp hRest
    cases hLast
    have hEntry := deref_eq_ok hTarget
    have hVm := h.entries x1 target hIdx hEntry
    have hElr : Contained i spis b _ := contained_setElr hVm x2
    exact hElr.trans (vcpuReady_contained hIdx hEntry ((hElr.vm target).trans hVm) hReady)
  · cases hRun

theorem hvcHandler_contained {fw : Nat} {ret : Int} (h : Serves b.hv vcpu i spis)
    (hRun : hvcHandler fw b vcpu = .ok (b', ret)) : Contained i spis b b' := by
  rw [hvcHandler, syscallHandler] at hRun
  split at hRun
  swap
  · cases hRun
  obtain ⟨⟨b₁, res⟩, hCall, hLast⟩ := bind_eq_ok.mp hRun
  cases hLast
  have hPsci : Contained i spis b b₁ := by
    rw [standardServiceCall] at hCall
    split at hCall
    swap
    · cases hCall
    rw [psciHandler] at hCall
    split at hCall
    · cases hCall
      exact (quiet_refl _ _ b).contained
    split at hCall
    · exact psciCpuOn_contained h hCall
    split at hCall
    · cases hCall
      exact (quiet_refl _ _ b).contained
    · cases hCall
  exact hPsci.trans (contained_setX ((hPsci.vm vcpu).trans h.vm) 0 res)

theorem mmioEmulate_contained {n cpu esr far hpfar : Nat} {ret : Int} (h : Serves b.hv vcpu i spis)
    (hPlain : Plain b.hv vcpu esr far hpfar)
    (hRun : mmioEmulate n b cpu vcpu (issSrt (esrIss esr)) (abortAccess esr far hpfar) = .ok (b', ret)) :
    Contained i spis b b' := by
  obtain ⟨vm, hVm, hRest⟩ := bind_eq_ok.mp hRun
  obtain ⟨mmio, hFind, _⟩ := bind_eq_ok.mp hRest
  have hRegion : Selects b.hv vcpu (faultIpa far hpfar) mmio := ⟨vm, deref_eq_ok hVm, hFind⟩
  rw [mmioEmulate_selected hRegion] at hRun
  cases mmio with
  | none =>
    cases hRun
    exact (quiet_refl _ _ b).contained
  | some mmio =>
    rw [emulateIn] at hRun
    split at hRun
    · rename_i hWnr
      cases hHandler : mmio.write with
      | none =>
        rw [hHandler] at hRun
        cases hRun
        exact (quiet_refl _ _ b).contained
      | some handler =>
        rw [hHandler] at hRun
        exact (callWrite_quiet h (hPlain.store mmio handler hWnr hRegion hHandler) hRun).contained
    · rename_i hWnr
      cases hHandler : mmio.read with
      | none =>
        rw [hHandler] at hRun
        cases hRun
        exact (quiet_refl _ _ b).contained
      | some handler =>
        rw [hHandler] at hRun
        obtain ⟨⟨r, v⟩, _, hLast⟩ := bind_eq_ok.mp hRun
        cases hLast
        rw [setDestination, if_neg (hPlain.load (not_not.mp hWnr))]
        exact contained_setX h.vm _ _

theorem lowerElSyncHandler_contained {n fw cpu esr far hpfar : Nat} (h : Serves b.hv vcpu i spis)
    (hPlain : Plain b.hv vcpu esr far hpfar) (hRun : lowerElSyncHandler n fw b cpu vcpu esr far hpfar = .ok b') :
    Contained i spis b b' := by
  rw [lowerElSyncHandler] at hRun
  split at hRun
  · cases hRun
  rename_i handler _
  obtain ⟨⟨b₁, ret⟩, hCall, hLast⟩ := bind_eq_ok.mp hRun
  dsimp only at hLast
  split at hLast
  · cases hLast
  cases hLast
  cases handler with
  | wfxEmulate =>
    cases hCall
    exact contained_setElr h.vm _
  | hvc => exact hvcHandler_contained h hCall
  | dataAbort =>
    rw [callSyncTrapHandler, dataAbortHandler] at hCall
    dsimp only at hCall
    split at hCall
    · cases hCall
      exact (quiet_refl _ _ b).contained
    obtain ⟨⟨b₂, r⟩, hEmulate, hRest⟩ := bind_eq_ok.mp hCall
    have hContained := mmioEmulate_contained h hPlain hEmulate
    dsimp only at hRest
    split at hRest
    · cases hRest
      exact hContained
    · cases hRest
      exact hContained.trans (contained_setElr ((hContained.vm vcpu).trans h.vm) _)

end

/-- A trap of a vcpu whose guest has brought its registers and its pc where it likes. -/
structure GuestTrap where
  cpu : Nat
  vcpu : Nat
  x : Nat → Nat
  pc : Nat
  esr : Nat
  far : Nat
  hpfar : Nat
  rounds : Nat
  firmware : Nat

def atTrap (b : Board) (e : GuestTrap) : Board := { b with x := Function.update b.x e.vcpu e.x }.setElr e.vcpu e.pc

def takeTrap (b : Board) (e : GuestTrap) : Outcome Board :=
  lowerElSyncHandler e.rounds e.firmware (atTrap b e) e.cpu e.vcpu e.esr e.far e.hpfar

theorem atTrap_x (b : Board) (e : GuestTrap) : (atTrap b e).x e.vcpu = e.x := Function.update_self _ _ _

theorem atTrap_elr (b : Board) (e : GuestTrap) : ((atTrap b e).hv.vcpus e.vcpu).elrEl2 = e.pc := by
  rw [atTrap, Board.setElr]
  dsimp only
  rw [Function.update_self]

section
variable {i spis : Nat} {b b' : Board}

theorem atTrap_contained {e : GuestTrap} (hVm : (b.hv.vcpus e.vcpu).vm = some i) : Contained i spis b (atTrap b e) := by
  refine contained_of_vcpus rfl ?_ ?_
  · have hElr : Contained i spis b _ := contained_setElr hVm e.pc
    exact hElr.vcpus
  · intro u hu
    have hNe : u ≠ e.vcpu := by
      rintro rfl
      exact hu hVm
    exact ⟨Function.update_of_ne hNe _ _, Function.update_of_ne hNe _ _⟩

theorem takeTrap_contained {e : GuestTrap} (h : Serves b.hv e.vcpu i spis)
    (hPlain : Plain b.hv e.vcpu e.esr e.far e.hpfar) (hRun : takeTrap b e = .ok b') : Contained i spis b b' := by
  have hAt : Contained i spis b _ := atTrap_contained h.vm
  exact hAt.trans (lowerElSyncHandler_contained (h.contained hAt) (hPlain.contained hAt) hRun)

/-- The next traps, after some that were contained. -/
theorem Contained.traps {b₁ : Board} {es : List GuestTrap} (h : Contained i spis b b₁)
    (hServes : ∀ e ∈ es, Serves b.hv e.vcpu i spis) (hPlain : ∀ e ∈ es, Plain b.hv e.vcpu e.esr e.far e.hpfar)
    (hRun : es.foldlM takeTrap b₁ = .ok b') : Contained i spis b b' := by
  induction es generalizing b₁ with
  | nil =>
    cases hRun
    exact h
  | cons e es ih =>
    rw [List.foldlM_cons] at hRun
    obtain ⟨b₂, hTrap, hRest⟩ := bind_eq_ok.mp hRun
    have hFirst := takeTrap_contained ((hServes e List.mem_cons_self).contained h)
      ((hPlain e List.mem_cons_self).contained h) hTrap
    exact ih (h.trans hFirst) (fun e he => hServes e (List.mem_cons_of_mem _ he))
      (fun e he => hPlain e (List.mem_cons_of_mem _ he)) hRest

/-- However many plain traps the vcpus of one VM take, in whatever order and from whatever registers, they change
nothing of another VM and no memory but the SPI records of their own. -/
theorem traps_contained {es : List GuestTrap} (hServes : ∀ e ∈ es, Serves b.hv e.vcpu i spis)
    (hPlain : ∀ e ∈ es, Plain b.hv e.vcpu e.esr e.far e.hpfar) (hRun : es.foldlM takeTrap b = .ok b') :
    Contained i spis b b' :=
  (quiet_refl _ _ b).contained.traps hServes hPlain hRun

end

theorem serves_of_wired {w : Wiring} {s : Hypervisor} (h : Wired w s) {j : Nat} (hj : j < w.nvcpu)
    (hUnused : ∀ k, w.nvcpu ≤ k → k < vcpuMax → (s.vms w.vm).vcpus k = none) :
    Serves s (w.vcpu j) w.vm (w.spis s) where
  vm := h.vm j hj
  entries := by
    intro k u hk hu
    by_cases hLt : k < w.nvcpu
    · rw [h.vcpus k hLt] at hu
      cases hu
      exact h.vm k hLt
    · rw [hUnused k (Nat.le_of_not_lt hLt) hk] at hu
      cases hu
  spis := by
    intro g hg
    rw [h.vgic] at hg
    cases hg
    rfl

/-- Vcpu 0 sets the priorities of four SPIs and turns vcpu 1 on, which then waits for an interrupt. -/
def smallTraps : List GuestTrap :=
  [⟨0, 0, fun _ => 0x80808080, 0x80000020, 0x93810040, 0x420, 0x80000, 0, 0⟩,
    ⟨0, 0, fun t => if t = 0 then psciCpuOnSmc64 else if t = 1 then 1
      else 0x80000000, 0x80000040, 0x5a000000, 0, 0, 0, 0⟩,
    ⟨1, 1, fun _ => 7, 0x80000100, 0x04000000, 0, 0, 0, 0⟩]

/-- A store to the distributor goes to its handler, whose writes stay in the records. -/
theorem plain_of_hits {s : Hypervisor} {vcpu esr far hpfar offset : Nat} (hWnr : issWnr (esrIss esr) ≠ 0)
    (hHits : Hits s vcpu (faultIpa far hpfar) .vgicd offset) : Plain s vcpu esr far hpfar := by
  refine ⟨fun hLoad => absurd hLoad hWnr, ?_⟩
  rintro mmio handler _ ⟨vm, hVm, hFind⟩ hHandler
  obtain ⟨vm', mmio', hVm', hFind', _, hWrite, _⟩ := hHits
  cases hVm.symm.trans hVm'
  cases hFind.symm.trans hFind'
  cases hHandler.symm.trans hWrite
  rintro (⟨hVirtio, _⟩ | ⟨hVgicr, _⟩)
  · cases hVirtio
  · cases hVgicr

theorem smallTraps_plain : ∀ e ∈ smallTraps, Plain smallBoard.hv e.vcpu e.esr e.far e.hpfar := by
  have hLoad : ∀ e ∈ smallTraps.tail, issWnr (esrIss e.esr) = 0 ∧ issSrt (esrIss e.esr) ≠ 31 := by decide
  intro e he
  obtain rfl | hTail := List.mem_cons.mp he
  · exact plain_of_hits (by decide) (smallBoard_hits .vgicd 0x420 (by decide) 0x420 0x80000 (by decide))
  · obtain ⟨hWnr, hSrt⟩ := hLoad e hTail
    exact ⟨fun _ => hSrt, fun _ _ hStore => absurd hWnr hStore⟩

theorem traps_contained_small : ∃ b', smallTraps.foldlM takeTrap smallBoard = .ok b' ∧
    Contained 0 (smallWiring.spis smallBoard.hv) smallBoard b' := by
  have hVcpu : ∀ e ∈ smallTraps, e.vcpu < 2 := by decide
  have hServes : ∀ e ∈ smallTraps, Serves smallBoard.hv e.vcpu 0 (smallWiring.spis smallBoard.hv) := by
    intro e he
    exact serves_of_wired smallBoard_wired (j := e.vcpu) (hVcpu e he) smallBoard_unused
  have hReturns : returns (smallTraps.foldlM takeTrap smallBoard) (fun _ => true) = true := by
    decide +kernel
  obtain ⟨b', hRun, _⟩ := exists_of_returns hReturns
  exact ⟨b', hRun, traps_contained hServes smallTraps_plain hRun⟩

end HyperPoc.Trap
