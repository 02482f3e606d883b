import HyperPoc.Boot
import HyperPoc.Trap.Contained
import HyperPoc.Vm.Tenants

/-! # Guests with memories of their own

VMs are created, their guests store to memory, trap and are entered, in any order. Beside this runs a
machine in which every VM has a private memory: a new VM starts with its image, a store changes the
memory of the VM that stores, and nothing else happens. What a guest finds in its RAM is always what
the private machine has for it.
-/
namespace HyperPoc
open Library.Memory Library.AddressSpaces Stage2
set_option autoImplicit false

/-- A store of a guest. At an address that is not RAM it traps or goes to the device. -/
def guestStore (s : Hypervisor) (i ipa : Nat) (v : UInt8) : Hypervisor :=
  match guestRam s.host.mem (s.vms i).stage2Pt ipa with
  | none => s
  | some pa => { s with host := { s.host with mem := Function.update s.host.mem pa v } }

theorem guestStore_vms (s : Hypervisor) (i ipa : Nat) (v : UInt8) : (guestStore s i ipa v).vms = s.vms := by
  rw [guestStore]
  split
  · rfl
  · rfl

theorem guestStore_vcpus (s : Hypervisor) (i ipa : Nat) (v : UInt8) : (guestStore s i ipa v).vcpus = s.vcpus := by
  rw [guestStore]
  split
  · rfl
  · rfl

inductive Event
  | create (cfg : VmConfig) (img : Guest)
  | store (i ipa : Nat) (v : UInt8)
  | trap (e : Trap.GuestTrap)
  | enter (cpu : Nat)

/-- One event, from a VM that exists or a vcpu that runs. The pool lasts, and no trap writes where the guest likes. -/
inductive Step : Board → Event → Board → Prop
  | create {b : Board} {cfg : VmConfig} {img : Guest} {s : Hypervisor} (hPlaced : Placed cfg img)
      (hImg : cfg.guestImg = some img) (hOut : ImageOutside b.hv.host.allocator img)
      (hRun : createVm b.hv (some cfg) = .ok s) (hGranted : ∀ g ∈ s.host.grants, Granted g) :
      Step b (.create cfg img) { b with hv := s }
  | store {b : Board} {i : Nat} (ipa : Nat) (v : UInt8) (hi : i < vmMax) (hUsed : (b.hv.vms i).used = true) :
      Step b (.store i ipa v) { b with hv := guestStore b.hv i ipa v }
  | trap {b b' : Board} {e : Trap.GuestTrap} (hRunning : (b.hv.vcpus e.vcpu).state = .running)
      (hPlain : Trap.Plain b.hv e.vcpu e.esr e.far e.hpfar) (hRun : Trap.takeTrap b e = .ok b') : Step b (.trap e) b'
  | enter {b : Board} {cpu : Nat} {s : Hypervisor} (hRun : Trap.enterVcpu b.hv cpu = .ok s) :
      Step b (.enter cpu) { b with hv := s }

inductive Steps (b₀ : Board) : List Event → Board → Prop
  | none : Steps b₀ [] b₀
  | snoc {es : List Event} {b b' : Board} {e : Event} (h : Steps b₀ es b) (hStep : Step b e b') :
    Steps b₀ (es ++ [e]) b'

theorem Steps.store {b₀ b : Board} {es : List Event} (h : Steps b₀ es b) {i : Nat} (ipa : Nat) (v : UInt8)
    (hi : i < vmMax) (hUsed : (b.hv.vms i).used = true) : ∃ b', Steps b₀ (es ++ [.store i ipa v]) b' ∧
      b'.hv.vms = b.hv.vms :=
  ⟨_, h.snoc (.store ipa v hi hUsed), guestStore_vms b.hv i ipa v⟩

theorem Steps.enter {b₀ b : Board} {es : List Event} (h : Steps b₀ es b) {cpu : Nat} (hLt : cpu < vcpuMax)
    (hReady : (b.hv.vcpus cpu).state = .ready) (hCpuid : (b.hv.vcpus cpu).cpuid = cpu) :
    Steps b₀ (es ++ [.enter cpu]) { b with hv := Trap.editVcpu b.hv cpu fun v => { v with state := .running } } := by
  refine h.snoc (.enter ?_)
  rw [Trap.enterVcpu, if_neg (Nat.not_le.mpr hLt), if_neg (not_not.mpr hReady), Trap.switchToVcpu,
    if_neg (not_not.mpr hCpuid.symm)]

theorem Steps.append {b₀ b b' : Board} {es es' : List Event} (h : Steps b₀ es b) (h' : Steps b es' b') :
    Steps b₀ (es ++ es') b' := by
  induction h' with
  | none => rwa [List.append_nil]
  | snoc _ hStep ih =>
    rw [← List.append_assoc]
    exact ih.snoc hStep

/-- What an event does where every VM has a memory of its own; `m` is the memory the images are taken from. -/
def privateStep (m : Mem) (ps : List (Nat → Option UInt8)) : Event → List (Nat → Option UInt8)
  | .create cfg img => ps ++ [loadedRam m cfg img]
  | .store i ipa v => ps.modify i fun p => put p ipa v
  | .trap _ => ps
  | .enter _ => ps

def privates (m : Mem) (es : List Event) : List (Nat → Option UInt8) := es.foldl (privateStep m) []

/-- The VMs are housed, and the RAM of each is its private memory. -/
structure Simulates (h₀ : Host) (b : Board) (ps : List (Nat → Option UInt8)) : Prop where
  houses : ∃ ts, Houses h₀ b.hv ts ∧ ps.length = ts.length
  ram : ∀ i p, ps[i]? = some p → ramByte b.hv i = p

section
variable {h₀ : Host} {s s' : Hypervisor} {ts : List Tenant} {b b' : Board} {ps : List (Nat → Option UInt8)}

theorem guestStore_touches (h : Houses h₀ s ts) {i : Nat} (hi : i < ts.length) (ipa : Nat) (v : UInt8) :
    Touches ts s (guestStore s i ipa v) ∧
      (guestStore s i ipa v).host.mem = write (ramWalk ts) s.host.mem i ipa v := by
  have ht := List.getElem?_eq_getElem hi
  have hWalk : ramWalk ts i ipa = guestRam s.host.mem (s.vms i).stage2Pt ipa := by
    rw [ramWalk, ht, Option.bind_some, (h.housed i _ ht).guestRam_eq h.start]
  rw [guestStore, write, hWalk]
  cases hPlace : guestRam s.host.mem (s.vms i).stage2Pt ipa with
  | none =>
    exact ⟨⟨fun _ _ => rfl, ⟨rfl, rfl⟩, rfl, fun _ => ⟨rfl, rfl⟩, fun _ => ⟨rfl, Iff.rfl⟩⟩, rfl⟩
  | some x =>
    refine ⟨⟨?_, ⟨rfl, rfl⟩, rfl, fun _ => ⟨rfl, rfl⟩, fun _ => ⟨rfl, Iff.rfl⟩⟩, rfl⟩
    intro c hc
    rw [(h.housed i _ ht).guestRam_eq h.start] at hPlace
    obtain ⟨j, f, hf, _, rfl⟩ := Tenant.place_some hPlace
    have hApart := hc _ (List.getElem_mem hi) f (List.mem_cons_of_mem _ (List.mem_of_getElem? hf))
    exact Function.update_of_ne (by omega) _ _

theorem spiByte_page {spis a : Nat} (hTop : spis + 4096 ≤ 2 ^ 48) (h : Trap.SpiByte spis a) :
    spis ≤ a ∧ a < spis + 4096 := by
  obtain ⟨m, f, hm, hf, rfl⟩ := h
  rw [u64_of_lt (n := spis + 3 * m) (by omega), u64_of_lt (by omega)]
  omega

theorem Houses.serves (h : Houses h₀ s ts) {u : Nat} (hState : (s.vcpus u).state ≠ .unused) :
    ∃ i t, ts[i]? = some t ∧ Trap.Serves s u i t.spis := by
  obtain ⟨i, hi, hVm⟩ := h.staff u hState
  have ht := List.getElem?_eq_getElem hi
  have hHoused := h.housed i _ ht
  refine ⟨i, _, ht, hVm, fun k u hk hu => (hHoused.entries k u hk hu).1, ?_⟩
  intro g hg
  obtain ⟨g', hg', _, hSpis⟩ := hHoused.vgic
  rw [hg] at hg'
  cases hg'
  exact hSpis

theorem Houses.trap_touches (h : Houses h₀ b.hv ts) {i : Nat} {t : Tenant} (ht : ts[i]? = some t)
    (hContained : Trap.Contained i t.spis b b') : Touches ts b.hv b'.hv := by
  have hHoused := h.housed i t ht
  obtain ⟨_, hTop⟩ := (hHoused.pages t.spis (.inl List.mem_cons_self)).bounds h.start.below
  refine ⟨?_, hContained.pages, hContained.vms, ?_, ?_⟩
  · intro a ha
    apply hContained.mem
    intro hSpi
    have hApart := ha t (List.mem_of_getElem? ht) t.spis List.mem_cons_self
    have hPage := spiByte_page hTop hSpi
    omega
  · intro g
    obtain ⟨on, hEq⟩ := hContained.vgics g
    rw [hEq]
    exact ⟨rfl, rfl⟩
  · intro u
    refine ⟨hContained.vm u, ?_⟩
    obtain ⟨pc, st, hEq, hState | ⟨rfl, k, hk, hEntry⟩⟩ := hContained.vcpus u
    · rw [hEq, hState]
    · rw [hEq]
      exact iff_of_false nofun (hHoused.entries k u hk hEntry).2

theorem Houses.trap_ram (h : Houses h₀ b.hv ts) {i : Nat} {t : Tenant} (ht : ts[i]? = some t)
    (hContained : Trap.Contained i t.spis b b') {j : Nat} (hj : j < ts.length) : ramByte b'.hv j = ramByte b.hv j := by
  rw [(h.touch (h.trap_touches ht hContained)).ramByte_eq hj, h.ramByte_eq hj]
  apply view_congr
  intro a x hWalk
  apply hContained.mem
  intro hSpi
  obtain ⟨t', ht', hPlace⟩ := Option.bind_eq_some_iff.mp hWalk
  obtain ⟨k, f, hf, _, rfl⟩ := Tenant.place_some hPlace
  have hMem := List.mem_of_getElem? hf
  have hSpisTaken := (h.housed i t ht).pages t.spis (.inl List.mem_cons_self)
  have hPage := spiByte_page (hSpisTaken.bounds h.start.below).2 hSpi
  have hNe : f ≠ t.spis := by
    rintro rfl
    obtain rfl := h.apart i j t t' t.spis ht ht' (.inl List.mem_cons_self) (.inl (List.mem_cons_of_mem _ hMem))
    rw [ht] at ht'
    cases ht'
    exact (List.nodup_cons.mp (h.housed i t ht).nodup).1 hMem
  have hApart := ((h.housed j t' ht').pages f (.inl (List.mem_cons_of_mem _ hMem))).disjoint hSpisTaken hNe
  omega

theorem enterVcpu_touches (ts : List Tenant) {cpu : Nat} (hRun : Trap.enterVcpu s cpu = .ok s') :
    Touches ts s s' ∧ s'.host = s.host := by
  rw [Trap.enterVcpu] at hRun
  split at hRun
  · cases hRun
  split at hRun
  · cases hRun
  rename_i hReady
  rw [Trap.switchToVcpu] at hRun
  split at hRun
  · cases hRun
  cases hRun
  refine ⟨⟨fun _ _ => rfl, ⟨rfl, rfl⟩, rfl, fun _ => ⟨rfl, rfl⟩, ?_⟩, rfl⟩
  intro u
  rw [Trap.vcpus_editVcpu]
  split
  · rename_i hEq
    subst hEq
    rw [not_not.mp hReady]
    simp
  · exact ⟨rfl, Iff.rfl⟩

theorem Houses.imageOutside (h : Houses h₀ s ts) {img : Guest} (hOut : ImageOutside s.host.allocator img) :
    ImageOutside h₀.allocator img := by
  refine ⟨hOut.order, hOut.word, ?_⟩
  intro k hk
  have hApart := hOut.apart k (by rw [h.totalPages]; exact hk)
  rwa [PageAllocator.pageAddr, h.basePfn] at hApart

/-- Each event on the machine is the event on the private memories. -/
theorem Simulates.step {e : Event} (h : Simulates h₀ b ps) (hStep : Step b e b') :
    Simulates h₀ b' (privateStep h₀.mem ps e) := by
  obtain ⟨ts, hHouses, hLength⟩ := h.houses
  have hLt : ∀ i p, ps[i]? = some p → i < ts.length := by
    intro i p hp
    rw [← hLength]
    exact (List.getElem?_eq_some_iff.mp hp).1
  cases hStep with
  | create hPlaced hImg hOut hRun hGranted =>
    have hOut₀ := hHouses.imageOutside hOut
    obtain ⟨t, rfl, rfl, hNew⟩ := hHouses.lodges hPlaced hImg hOut₀ hRun hGranted
    refine ⟨⟨ts ++ [t], hHouses.lodge hNew, ?_⟩, ?_⟩
    · rw [privateStep, List.length_append, List.length_append, hLength]
      rfl
    · intro j p hp
      obtain hOld | ⟨rfl, rfl⟩ := getElem?_concat hp
      · exact (hHouses.old_ram hNew (hLt j p hOld)).trans (h.ram j p hOld)
      · rw [hLength]
        exact hHouses.new_ram hNew hOut₀
  | @store i ipa v hi hUsed =>
    have hHere := (hHouses.used i hi).mp hUsed
    obtain ⟨hTouch, hMem⟩ := guestStore_touches hHouses hHere ipa v
    have hAfter := hHouses.touch hTouch
    refine ⟨⟨ts, hAfter, by rw [privateStep, List.length_modify, hLength]⟩, ?_⟩
    intro j p hp
    rw [privateStep, List.getElem?_modify] at hp
    obtain ⟨q, hq, rfl⟩ := Option.map_eq_some_iff.mp hp
    have hj := hLt j q hq
    rw [hAfter.ramByte_eq hj, hMem, ← h.ram j q hq]
    split
    · rename_i hSame
      subst hSame
      rw [view_write_self hHouses.separate, hHouses.ramByte_eq hj]
    · rename_i hNe
      rw [view_write_other hHouses.separate (Ne.symm hNe), hHouses.ramByte_eq hj]
  | trap hRunning hPlain hRun =>
    obtain ⟨i, t, ht, hServes⟩ := hHouses.serves (by rw [hRunning]; nofun)
    have hContained := Trap.takeTrap_contained hServes hPlain hRun
    refine ⟨⟨ts, hHouses.touch (hHouses.trap_touches ht hContained), hLength⟩, ?_⟩
    intro j p hp
    rw [hHouses.trap_ram ht hContained (hLt j p hp)]
    exact h.ram j p hp
  | enter hRun =>
    obtain ⟨hTouch, hHost⟩ := enterVcpu_touches ts hRun
    refine ⟨⟨ts, hHouses.touch hTouch, hLength⟩, ?_⟩
    intro j p hp
    rw [← h.ram j p hp]
    funext ipa
    rw [ramByte, ramByte, hHost, hTouch.vms]

theorem Simulates.steps {b₀ : Board} {es : List Event} (h : Simulates h₀ b₀ []) (hSteps : Steps b₀ es b) :
    Simulates h₀ b (privates h₀.mem es) := by
  induction hSteps with
  | none => exact h
  | snoc _ hStep ih =>
    rw [privates, List.foldl_append]
    exact ih.step hStep

theorem Houses.simulates (h : Houses h₀ b.hv []) : Simulates h₀ b [] :=
  ⟨⟨[], h, rfl⟩, fun _ _ hp => by cases hp⟩

/-- However VMs are created and guests store, trap and are entered, each guest finds in its RAM its image and its own
stores, as if it had a memory of its own. -/
theorem guests_separated {b₀ : Board} {es : List Event} (hFresh : Houses b₀.hv.host b₀.hv [])
    (hSteps : Steps b₀ es b) (i : Nat) (p : Nat → Option UInt8) (hp : (privates b₀.hv.host.mem es)[i]? = some p) :
    ramByte b.hv i = p :=
  (hFresh.simulates.steps hSteps).ram i p hp

/-- Events that are about VM `i`, and the creations, which give the VMs their numbers. -/
def Event.concerns (i : Nat) : Event → Bool
  | .create _ _ => true
  | .store j _ _ => j == i
  | .trap _ => false
  | .enter _ => false

theorem privates_filter (m : Mem) (i : Nat) (es : List Event) :
    ∀ ps qs : List (Nat → Option UInt8), ps.length = qs.length →
    ps[i]? = qs[i]? → (es.foldl (privateStep m) ps)[i]? =
      ((es.filter (Event.concerns i)).foldl (privateStep m) qs)[i]? := by
  induction es with
  | nil => exact fun _ _ _ hSame => hSame
  | cons e es ih =>
    intro ps qs hLength hSame
    rw [List.foldl_cons]
    cases e with
    | create cfg img =>
      rw [List.filter_cons_of_pos rfl, List.foldl_cons]
      refine ih _ _ (by simp [privateStep, hLength]) ?_
      simp only [privateStep, List.getElem?_append, hLength, hSame]
    | store j ipa v =>
      by_cases hj : j = i
      · subst hj
        rw [List.filter_cons_of_pos (by simp [Event.concerns]), List.foldl_cons]
        refine ih _ _ (by simp [privateStep, hLength]) ?_
        simp only [privateStep, List.getElem?_modify, hSame]
      · rw [List.filter_cons_of_neg (by simpa [Event.concerns] using hj)]
        refine ih _ _ (by simp [privateStep, hLength]) ?_
        rw [privateStep, List.getElem?_modify_ne _ _ hj, hSame]
    | trap e => exact ih ps qs hLength hSame
    | enter cpu => exact ih ps qs hLength hSame

/-- Two runs in which VM `i` stores the same leave it the same RAM: no other guest can change it or learn of it
there. -/
theorem guest_undisturbed {b₀ : Board} {es es' : List Event} (hFresh : Houses b₀.hv.host b₀.hv [])
    (hSteps : Steps b₀ es b) (hSteps' : Steps b₀ es' b') {i : Nat} (hi : i < vmMax)
    (hUsed : (b.hv.vms i).used = true) (hSame : es.filter (Event.concerns i) = es'.filter (Event.concerns i)) :
    ramByte b.hv i = ramByte b'.hv i := by
  have hRun := hFresh.simulates.steps hSteps
  obtain ⟨ts, hHouses, hLength⟩ := hRun.houses
  have hPrivate := List.getElem?_eq_getElem (hLength ▸ (hHouses.used i hi).mp hUsed)
  rw [hRun.ram i _ hPrivate]
  refine ((hFresh.simulates.steps hSteps').ram i _ ?_).symm
  rw [← hPrivate, privates, privates, privates_filter _ i es' [] [] rfl rfl, ← hSame,
    ← privates_filter _ i es [] [] rfl rfl]

end

theorem houses_nil {s : Hypervisor} (hPool : RamPool s.host.allocator)
    (hGranted : ∀ g ∈ s.host.grants, GrantedZero g)
    (hZero : ∀ k, s.host.allocator.Free k → Zero s.host.mem (s.host.allocator.pageAddr k) 4096)
    (hVms : ∀ i, (s.vms i).used = false ∧ ∀ k, (s.vms i).vcpus k = none)
    (hVcpus : ∀ u, (s.vcpus u).state = .unused) :
    Houses s.host s [] where
  start := hPool
  pool := hPool
  basePfn := rfl
  totalPages := rfl
  grows := fun _ hk => hk
  granted := hGranted
  zeroed := hZero
  outside := fun _ _ => rfl
  used := by
    intro i _
    rw [(hVms i).1]
    exact iff_of_false Bool.false_ne_true (Nat.not_lt_zero i)
  blank := fun i k _ => (hVms i).2 k
  staff := fun u hu => absurd (hVcpus u) hu
  housed := fun _ _ ht => by cases ht
  apart := fun _ _ _ _ _ ht => by cases ht

def emptyBoard (pages : Nat) : Board :=
  { Vgic.smallBoard with
    hv := { bootHypervisor with host := ⟨fun _ => 0, ⟨fun _ => 0, pages, 0x40000, 0⟩, []⟩ } }

def roomyBoard : Board := emptyBoard 32

theorem emptyBoard_fresh {pages : Nat} (hPages : pages ≤ 32) :
    Houses (emptyBoard pages).hv.host (emptyBoard pages).hv [] := by
  have hPool : RamPool (emptyBoard pages).hv.host.allocator := by
    refine ⟨⟨?_, Nat.zero_le _⟩, ?_, ?_⟩
    · change (0x40000 + pages) * 4096 ≤ 2 ^ 64
      omega
    · change (0x40000 + pages) * 4096 ≤ 2 ^ 48
      omega
    · intro k _
      change (0x40000 + k) * 4096 ≠ 0x09000000
      omega
  exact houses_nil hPool (fun g hg => by cases hg) (fun k _ j _ => rfl) (fun i => ⟨rfl, fun k => rfl⟩)
    (fun u => rfl)

theorem roomyBoard_fresh : Houses roomyBoard.hv.host roomyBoard.hv [] := emptyBoard_fresh (Nat.le_refl 32)

def twoStores : List Event :=
  [.create smallCfg smallImg, .create smallCfg smallImg, .store 0 0x80000010 7, .store 1 0x80000010 9]

theorem twoVms_returns : Library.Run.returns (createVm roomyBoard.hv (some smallCfg)) (fun s =>
    s.host.grants.all (fun g => g.page != minusOne) && (s.host.allocator.totalPages == 32 &&
      (s.host.allocator.basePfn == 0x40000 && Library.Run.returns (createVm s (some smallCfg)) fun s' =>
        s'.host.grants.all (fun g => g.page != minusOne) && ((s'.vms 0).used && ((s'.vms 1).used &&
          ((s'.vcpus 0).state == .ready && ((s'.vcpus 0).cpuid == 0 && ((s'.vcpus 2).state == .ready &&
          (s'.vcpus 2).vm == some 1)))))))) = true := by
  decide +kernel

theorem granted_of_all {s : Hypervisor} (h : s.host.grants.all (fun g => g.page != minusOne) = true) :
    ∀ g ∈ s.host.grants, Granted g := by
  intro g hg
  simpa [Granted] using List.all_eq_true.mp h g hg

theorem smallImg_outside {a : PageAllocator} (hBase : a.basePfn = 0x40000) (hTotal : a.totalPages ≤ 32) :
    ImageOutside a smallImg := by
  refine ⟨by decide, by decide, ?_⟩
  intro k hk
  rw [PageAllocator.pageAddr, hBase]
  right
  change (0x40000 + k) * 4096 + 4096 ≤ 0x40100000
  omega

theorem roomyBoard_two : ∃ b, Steps roomyBoard [.create smallCfg smallImg, .create smallCfg smallImg] b ∧
    (b.hv.vms 0).used = true ∧ (b.hv.vms 1).used = true ∧ (b.hv.vcpus 0).state = .ready ∧
    (b.hv.vcpus 0).cpuid = 0 ∧
    (b.hv.vcpus 2).state = .ready ∧ (b.hv.vcpus 2).vm = some 1 := by
  obtain ⟨s, hRun, hTests⟩ := Library.Run.exists_of_returns twoVms_returns
  simp only [Bool.and_eq_true, beq_iff_eq] at hTests
  obtain ⟨hGranted, hTotal, hBase, hReturns⟩ := hTests
  obtain ⟨s', hRun', hTests'⟩ := Library.Run.exists_of_returns hReturns
  simp only [Bool.and_eq_true, beq_iff_eq] at hTests'
  obtain ⟨hGranted', hRecords⟩ := hTests'
  have hFirst : Step roomyBoard (.create smallCfg smallImg) { roomyBoard with hv := s } :=
    .create smallCfg_placed rfl (smallImg_outside rfl (Nat.le_refl _)) hRun (granted_of_all hGranted)
  have hSecond : Step { roomyBoard with hv := s } (.create smallCfg smallImg) { roomyBoard with hv := s' } :=
    .create smallCfg_placed rfl (smallImg_outside hBase hTotal.le) hRun' (granted_of_all hGranted')
  exact ⟨_, (Steps.none.snoc hFirst).snoc hSecond, hRecords⟩

theorem guests_separated_two : ∃ b, Steps roomyBoard twoStores b ∧ ramByte b.hv 0 0x80000010 = some 7 ∧
    ramByte b.hv 1 0x80000010 = some 9 := by
  obtain ⟨b, hSteps, hUsed₀, hUsed₁, _⟩ := roomyBoard_two
  obtain ⟨b₁, hOne, hVms⟩ := hSteps.store 0x80000010 7 (by decide) hUsed₀
  obtain ⟨b₂, hTwo, _⟩ := hOne.store 0x80000010 9 (by decide) (hVms ▸ hUsed₁)
  have hByte : ∀ m v, put (loadedRam m smallCfg smallImg) 0x80000010 v 0x80000010 = some v := by
    intro m v
    rfl
  refine ⟨_, hTwo, ?_, ?_⟩
  · rw [guests_separated roomyBoard_fresh hTwo 0
      (put (loadedRam roomyBoard.hv.host.mem smallCfg smallImg) 0x80000010 7) rfl]
    exact hByte _ 7
  · rw [guests_separated roomyBoard_fresh hTwo 1
      (put (loadedRam roomyBoard.hv.host.mem smallCfg smallImg) 0x80000010 9) rfl]
    exact hByte _ 9

theorem guest_undisturbed_two : ∃ b b', Steps roomyBoard [.create smallCfg smallImg, .create smallCfg smallImg] b ∧
    Steps roomyBoard [.create smallCfg smallImg, .create smallCfg smallImg, .store 1 0x80000010 9] b' ∧
    ramByte b.hv 0 = ramByte b'.hv 0 := by
  obtain ⟨b, hSteps, hUsed₀, hUsed₁, _⟩ := roomyBoard_two
  obtain ⟨b', hStore, _⟩ := hSteps.store 0x80000010 9 (by decide) hUsed₁
  exact ⟨_, _, hSteps, hStore, guest_undisturbed roomyBoard_fresh hSteps hStore (by decide) hUsed₀ rfl⟩

theorem canaries_kept {l : LinkerMap} {m : Mem} {a : PageAllocator} {st : Stacks} {b₀ b : Board} {es : List Event}
    (hLinked : Linked l m) (hBoot : initMemory l ⟨m, a, []⟩ = .ok st) (hHost : b₀.hv.host = st.host)
    (hVms : ∀ i, (b₀.hv.vms i).used = false ∧ ∀ k, (b₀.hv.vms i).vcpus k = none)
    (hVcpus : ∀ u, (b₀.hv.vcpus u).state = .unused) (hSteps : Steps b₀ es b) :
    spCanaryCheck b.hv.host.mem st.spTop = .ok true ∧
    ∀ x, x < l.ramStart + 4096 * (pcpuNum - 1) ∨ l.ramStart + ramSize ≤ x →
      b.hv.host.mem x = st.host.mem x := by
  obtain ⟨st', hRun, hStacked⟩ := initMemory_stacked hLinked a
  rw [hBoot] at hRun
  cases hRun
  have hFresh : Houses b₀.hv.host b₀.hv [] := by
    refine houses_nil ?_ ?_ ?_ hVms hVcpus
    all_goals rw [hHost]
    · exact hStacked.ramPool hLinked
    · exact hStacked.granted
    · exact fun _ => hStacked.free_zero
  obtain ⟨ts, hHouses, _⟩ := (hFresh.simulates.steps hSteps).houses
  have hOutside := hHouses.outside
  rw [hHost] at hOutside
  have hRam : ∀ x, x < l.ramStart + 4096 * (pcpuNum - 1) ∨ l.ramStart + ramSize ≤ x →
      b.hv.host.mem x = st.host.mem x := by
    intro x hx
    refine hOutside x ?_
    intro k hFree
    obtain ⟨_, _, hLow, hHigh⟩ := hStacked.free_bounds hFree
    omega
  refine ⟨spCanaryCheck_ok ?_, hRam⟩
  intro c hc
  have hc' : c ≤ pcpuNum - 1 := Nat.le_sub_one_of_lt hc
  rw [hStacked.top c hc', ← hStacked.canary c hc']
  refine load_congr ?_
  intro j hj
  have hTop := hLinked.stackTop_le hc'
  exact hRam _ (.inl (by omega))

/-- `vmm_init_primary` sets the memory up, creates the first VM and enters its first vcpu. -/
theorem vmmInitPrimary_steps {l : LinkerMap} {s s' : Hypervisor} {cfg : VmConfig} {img : Guest} {st : Stacks}
    (b : Board) (hBoot : vmmInitPrimary l s cfg = .ok (st, s')) (hPlaced : Placed cfg img)
    (hImg : cfg.guestImg = some img) (hOut : ImageOutside st.host.allocator img)
    (hGranted : ∀ g ∈ s'.host.grants, Granted g) :
    initMemory l s.host = .ok st ∧
    Steps { b with hv := { s with host := st.host } } [.create cfg img, .enter 0] { b with hv := s' } := by
  obtain ⟨st', hMemory, hRest⟩ := Library.Run.bind_eq_ok.mp hBoot
  obtain ⟨s₁, hCreate, hRest⟩ := Library.Run.bind_eq_ok.mp hRest
  obtain ⟨s₂, hEnter, hPure⟩ := Library.Run.bind_eq_ok.mp hRest
  cases hPure
  have hHost : s'.host = s₁.host := by
    rw [Trap.enterVcpu] at hEnter
    split at hEnter
    · cases hEnter
    · split at hEnter
      · cases hEnter
      · rw [Trap.switchToVcpu] at hEnter
        split at hEnter
        · cases hEnter
        · cases hEnter
          rfl
  rw [hHost] at hGranted
  have hFirst : Step { b with hv := { s with host := st.host } } (.create cfg img) { b with hv := s₁ } :=
    .create hPlaced hImg hOut hCreate hGranted
  have hSecond : Step { b with hv := s₁ } (.enter 0) { b with hv := s' } := .enter hEnter
  exact ⟨hMemory, (Steps.none.snoc hFirst).snoc hSecond⟩

/-- After `vmm_init_primary`, nothing that VMs do reaches the image of the hypervisor or the stacks of the cores. -/
theorem canaries_intact {l : LinkerMap} {m : Mem} {a : PageAllocator} {s s' : Hypervisor} {cfg : VmConfig} {img : Guest}
    {st : Stacks} {b b' : Board} {es : List Event} (hLinked : Linked l m) (hHost : s.host = ⟨m, a, []⟩)
    (hVms : ∀ i, (s.vms i).used = false ∧ ∀ k, (s.vms i).vcpus k = none)
    (hVcpus : ∀ u, (s.vcpus u).state = .unused) (hBoot : vmmInitPrimary l s cfg = .ok (st, s'))
    (hPlaced : Placed cfg img) (hImg : cfg.guestImg = some img) (hOut : ImageOutside st.host.allocator img)
    (hGranted : ∀ g ∈ s'.host.grants, Granted g) (hSteps : Steps { b with hv := s' } es b') :
    spCanaryCheck b'.hv.host.mem st.spTop = .ok true ∧
    ∀ x, x < l.ramStart + 4096 * (pcpuNum - 1) ∨ l.ramStart + ramSize ≤ x →
      b'.hv.host.mem x = st.host.mem x := by
  obtain ⟨hMemory, hFirst⟩ := vmmInitPrimary_steps b hBoot hPlaced hImg hOut hGranted
  rw [hHost] at hMemory
  exact canaries_kept hLinked hMemory rfl hVms hVcpus (hFirst.append hSteps)

def smallMap : LinkerMap := ⟨0x40200000, 0x40300000, 0x40301000, 0x40302000⟩

theorem smallMap_linked : Linked smallMap (fun _ => 0) :=
  ⟨by decide, by decide, by decide, by decide, by decide, fun _ _ => rfl, fun _ _ => rfl⟩

theorem smallMap_returns (a : PageAllocator) : Library.Run.returns (initMemory smallMap ⟨fun _ => 0, a, []⟩)
    (fun st => st.host.allocator.basePfn == 0x40302 &&
    Library.Run.returns (createVm { bootHypervisor with host := st.host } (some smallCfg)) fun s =>
      s.host.grants.all (fun g => g.page != minusOne) && ((s.vcpus 0).state == .ready && ((s.vcpus 0).cpuid == 0 &&
        ((s.vcpus 0).vm == some 0 && (s.vms 0).used)))) = true := by
  rw [initMemory, smallMap_linked.allocatorInit_eq]
  decide +kernel

theorem smallMap_booted : ∃ st s, initMemory smallMap ⟨fun _ => 0, ⟨fun _ => 0, 0, 0, 0⟩, []⟩ = .ok st ∧
    createVm { bootHypervisor with host := st.host } (some smallCfg) = .ok s ∧
    (∀ g ∈ s.host.grants, Granted g) ∧
    ImageOutside st.host.allocator smallImg ∧ (s.vcpus 0).state = .ready ∧ (s.vcpus 0).cpuid = 0 ∧
    (s.vcpus 0).vm = some 0 ∧ (s.vms 0).used = true := by
  obtain ⟨st, hBoot, hTests⟩ := Library.Run.exists_of_returns (smallMap_returns ⟨fun _ => 0, 0, 0, 0⟩)
  obtain ⟨hBase, hReturns⟩ := Bool.and_eq_true_iff.mp hTests
  obtain ⟨s, hRun, hTests'⟩ := Library.Run.exists_of_returns hReturns
  simp only [Bool.and_eq_true, beq_iff_eq] at hTests'
  obtain ⟨hGranted, hRecords⟩ := hTests'
  refine ⟨st, s, hBoot, hRun, granted_of_all hGranted, ⟨by decide, by decide, fun k _ => .inl ?_⟩, hRecords⟩
  rw [PageAllocator.pageAddr, beq_iff_eq.mp hBase]
  change 0x40100032 ≤ (0x40302 + k) * 4096
  omega

theorem smallMap_created (x : Nat → Nat → Nat) : ∃ st b,
    initMemory smallMap ⟨fun _ => 0, ⟨fun _ => 0, 0, 0, 0⟩, []⟩ = .ok st ∧
    Steps { roomyBoard with x := x, hv := { bootHypervisor with host := st.host } } [.create smallCfg smallImg] b ∧
    b.x = x ∧ (b.hv.vcpus 0).state = .ready ∧ (b.hv.vcpus 0).cpuid = 0 ∧ (b.hv.vcpus 0).vm = some 0 := by
  obtain ⟨st, s, hBoot, hRun, hGranted, hOut, hReady, hCpuid, hVm, _⟩ := smallMap_booted
  have hCreate : Step { roomyBoard with x := x, hv := { bootHypervisor with host := st.host } }
      (.create smallCfg smallImg) _ :=
    .create smallCfg_placed rfl hOut hRun hGranted
  exact ⟨st, _, hBoot, Steps.none.snoc hCreate, rfl, hReady, hCpuid, hVm⟩

theorem canaries_intact_small : ∃ st s b,
    vmmInitPrimary smallMap { bootHypervisor with host := ⟨fun _ => 0, ⟨fun _ => 0, 0, 0, 0⟩, []⟩ } smallCfg =
      .ok (st, s) ∧
    Steps { roomyBoard with hv := s } [.store 0 0x80000010 7] b ∧
    spCanaryCheck b.hv.host.mem st.spTop = .ok true := by
  obtain ⟨st, s, hBoot, hRun, hGranted, hOut, hReady, hCpuid, _, hUsed⟩ := smallMap_booted
  have hEnter : Trap.enterVcpu s 0 = .ok (Trap.editVcpu s 0 fun v => { v with state := .running }) := by
    rw [Trap.enterVcpu, if_neg (by decide), if_neg (not_not.mpr hReady), Trap.switchToVcpu,
      if_neg (not_not.mpr hCpuid.symm)]
  have hPrimary :
      vmmInitPrimary smallMap { bootHypervisor with host := ⟨fun _ => 0, ⟨fun _ => 0, 0, 0, 0⟩, []⟩ } smallCfg =
      .ok (st, Trap.editVcpu s 0 fun v => { v with state := .running }) :=
    Library.Run.bind_eq_ok.mpr ⟨st, hBoot, Library.Run.bind_eq_ok.mpr
      ⟨s, hRun, Library.Run.bind_eq_ok.mpr ⟨_, hEnter, rfl⟩⟩⟩
  have hStore : Steps { roomyBoard with hv := Trap.editVcpu s 0 fun v => { v with state := .running } }
      [.store 0 0x80000010 7] _ := Steps.none.snoc (.store 0x80000010 7 (by decide) hUsed)
  exact ⟨st, _, _, hPrimary, hStore, (canaries_intact smallMap_linked rfl (fun _ => ⟨rfl, fun _ => rfl⟩)
    (fun _ => rfl) hPrimary smallCfg_placed rfl hOut hGranted hStore).1⟩

end HyperPoc
