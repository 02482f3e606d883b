import HyperPoc.Calltrace
import HyperPoc.Separation
import HyperPoc.Stage2.Translation

/-! # The backtrace of a guest

After a panic the frame records of the guest are followed, five at most. Their addresses are virtual
when the MMU of the guest is on, and intermediate physical otherwise. The loop stops at the first one
whose physical address is outside the RAM that the image was built for.
-/
namespace HyperPoc.Stage2
open Library.Memory
set_option autoImplicit false

section
variable {h : Host} {root : Nat} {node : Nat → Nat → Option Nat}

/-- The software walk takes the low 48 bits of an address. Where the hardware finds nothing it gives an address of the
first page. -/
theorem Tree.ipa2pa_cases (hTree : Tree h.mem root node) (ipa : Nat) : ∃ pa, ipa2pa h root ipa = .ok pa ∧
    ((∃ t, archWalk h.mem root (ipa % 2 ^ 48) = some t ∧ pa = t.pa) ∨
      (archWalk h.mem root (ipa % 2 ^ 48) = none ∧ pa < 4096)) := by
  have hLow : ipa % 2 ^ 48 < 2 ^ 48 := Nat.mod_lt _ (by decide)
  have hKey : pageKey (ipa % 2 ^ 48) = pageKey ipa := by
    rw [pageKey, pageKey, Nat.mod_mod]
  have hEntry : lastEntry h.mem root (ipa % 2 ^ 48) = lastEntry h.mem root ipa := by
    rw [hTree.lastEntry_eq, hTree.lastEntry_eq, hKey]
  have hOffset : ipa % 2 ^ 48 % 4096 = ipa % 4096 := Nat.mod_mod_of_dvd ipa (by decide)
  rw [hTree.archWalk_lastEntry hLow, hEntry, hOffset]
  refine ⟨_, hTree.ipa2pa_eq ipa, ?_⟩
  cases hLast : lastEntry h.mem root ipa with
  | none => exact .inr ⟨rfl, Nat.zero_lt_succ _⟩
  | some desc =>
    rw [Option.bind_some, page]
    split
    · exact .inl ⟨_, rfl, rfl⟩
    · rename_i hNot
      rw [hTree.lastEntry_eq] at hLast
      obtain ⟨t, hNode, rfl⟩ := Option.map_eq_some_iff.mp hLast
      have hZero := hTree.clean _ t _ hNode (Nat.mod_lt _ (by decide)) hNot
      refine .inr ⟨rfl, ?_⟩
      dsimp only
      rw [hZero, outputAddress]
      omega

theorem Tree.archWalk_pa (hTree : Tree h.mem root node) {ipa : Nat} {t : Translation}
    (hWalk : archWalk h.mem root ipa = some t) : t.pa < 2 ^ 48 ∧ t.pa % 4096 = ipa % 4096 := by
  rw [hTree.archWalk_eq ipa (lt_of_archWalk hWalk)] at hWalk
  obtain ⟨desc, _, rfl⟩ := Option.map_eq_some_iff.mp hWalk
  have hLt := outputAddress_lt desc
  have hAligned := outputAddress_aligned desc
  dsimp only
  omega

end

end HyperPoc.Stage2

namespace HyperPoc

theorem Housed.word {a₀ : PageAllocator} {s : Hypervisor} {i : Nat} {t : Tenant} (h : Housed a₀ s i t)
    (hPool : RamPool a₀) {ipa x : Nat} (hRam : guestRam s.host.mem (s.vms i).stage2Pt ipa = some x) :
    x % 4096 = ipa % 4096 ∧
      ∀ k, x % 4096 + k < 4096 → guestRam s.host.mem (s.vms i).stage2Pt (ipa + k) = some (x + k) := by
  rw [h.guestRam_eq hPool] at hRam
  obtain ⟨j, f, hf, hKey, rfl⟩ := Tenant.place_some hRam
  have hAligned := ((h.pages f (.inl (List.mem_cons_of_mem _ (List.mem_of_getElem? hf)))).bounds hPool.below).1
  refine ⟨by omega, ?_⟩
  intro k hk
  have hPage : (ipa + k) / 4096 = ipa / 4096 := by omega
  have hOffset : (ipa + k) % 4096 = ipa % 4096 + k := by omega
  rw [h.guestRam_eq hPool, Tenant.place, hPage, hOffset, if_pos (by omega), hKey, Nat.add_sub_cancel_left, hf,
    Option.map_some, Nat.add_assoc]

end HyperPoc

namespace HyperPoc.Calltrace
open Library.Memory Library.Run Stage2

def txtStart : Nat := 0x40000000

def isPaValid (ramStart pa : Nat) : Bool := decide (txtStart ≤ pa ∧ pa < ramStart + ramSize)

/-- What `at` finds in the tables of the guest. They lie in its RAM and map pages of 4096 bytes. -/
structure Stage1 where
  walk : (view : Nat → Option UInt8) → (isEl0 : Bool) → (va : Nat) → Option Nat
  offset : ∀ view isEl0 va ipa, walk view isEl0 va = some ipa → ipa % 4096 = va % 4096

def vmVaToPa (w : Stage1) (s : Hypervisor) (i : Nat) (isEl0 : Bool) (va : Nat) : Nat :=
  match (w.walk (ramByte s i) isEl0 va).bind (archWalk s.host.mem (s.vms i).stage2Pt) with
  | none => 2 ^ 64 - 1
  | some t => (t.pa &&& 0x000FFFFFFFFFF000) ||| (va &&& 0xFFF)

def vmTraceLoop (toPa : Nat → Outcome Nat) (ramStart : Nat) (m : Mem) : (n fp : Nat) → Outcome (List Turn)
  | 0, _ => .ok []
  | n + 1, fp => do
    let lrAddr ← toPa (u64 (fp + 8))
    if isPaValid ramStart lrAddr = false then .ok []
    else
      let addr := u64 (load m lrAddr 8 + (2 ^ 64 - 4))
      let fpAddr ← toPa fp
      if isPaValid ramStart fpAddr = false then .ok [⟨[lrAddr], addr, fp⟩]
      else do
        let turns ← vmTraceLoop toPa ramStart m n (load m fpAddr 8)
        .ok (⟨[lrAddr, fpAddr], addr, fp⟩ :: turns)

/-- How the dump translates for a guest. -/
def traceToPa (w : Stage1) (sctlrEl1 spsrEl2 : Nat) (s : Hypervisor) (i : Nat) : Nat → Outcome Nat :=
  if sctlrEl1 &&& 1 ≠ 0 then fun va => .ok (vmVaToPa w s i (!(spsrEl2 &&& 4 != 0)) va)
  else ipa2pa s.host (s.vms i).stage2Pt

structure VmTrace where
  name : String
  el1 : Bool
  elr : Nat
  turns : List Turn

/-- The vcpu of the core, with the live `sctlr_el1` of its guest. -/
def dumpVmCalltrace (ramStart : Nat) (w : Stage1) (sctlrEl1 : Nat) (b : Board) (vcpu : Nat) :
    Outcome (Option VmTrace) :=
  let v := b.hv.vcpus vcpu
  if v.state ≠ .running then .ok none
  else match v.vm with
    | none => .error .nullDereference
    | some i => do
      let turns ← vmTraceLoop (traceToPa w sctlrEl1 v.spsrEl2 b.hv i) ramStart b.hv.host.mem 5 (b.x vcpu 29)
      .ok (some ⟨(b.hv.vms i).name, v.spsrEl2 &&& 4 != 0, v.elrEl2, turns⟩)

/-- The address of the guest's own memory that the dump takes for `va`. -/
def guestAddr (w : Stage1) (sctlrEl1 spsrEl2 : Nat) (view : Nat → Option UInt8) (va : Nat) : Option Nat :=
  if sctlrEl1 &&& 1 ≠ 0 then w.walk view (!(spsrEl2 &&& 4 != 0)) va else some (va % 2 ^ 48)

def viewWord (view : Nat → Option UInt8) (ipa : Nat) : Option Nat :=
  (view ipa).map fun _ => load (fun a => (view a).getD 0) ipa 8

/-- The lines of the trace, from the memory of the guest alone. -/
def viewTrace (addr : Nat → Option Nat) (view : Nat → Option UInt8) : (n fp : Nat) → List (Nat × Nat)
  | 0, _ => []
  | n + 1, fp =>
    match (addr (u64 (fp + 8))).bind (viewWord view) with
    | none => []
    | some lr => (u64 (lr + (2 ^ 64 - 4)), fp) ::
      match (addr fp).bind (viewWord view) with
      | none => []
      | some next => viewTrace addr view n next

/-- Each address is translated to the place of the guest that `place` has for it, or to one that is not valid. -/
def Reaches (ramStart : Nat) (toPa : Nat → Outcome Nat) (place : Nat → Option Nat) : Prop :=
  ∀ va, ∃ pa, toPa va = .ok pa ∧ (place va = some pa ∨ (place va = none ∧ isPaValid ramStart pa = false))

section
variable {ramStart : Nat} {toPa : Nat → Outcome Nat} {place addr ram : Nat → Option Nat} {m : Mem}

theorem Reaches.turns (h : Reaches ramStart toPa place) (m : Mem) (n fp : Nat) :
    ∃ turns, vmTraceLoop toPa ramStart m n fp = .ok turns ∧ turns.length ≤ n ∧
      ∀ t ∈ turns, ∀ r ∈ t.reads, ∃ va, place va = some r := by
  induction n generalizing fp with
  | zero => exact ⟨[], rfl, Nat.le_refl 0, fun _ ht => by cases ht⟩
  | succ n ih =>
    obtain ⟨lrAddr, hLr, hLrPlace⟩ := h (u64 (fp + 8))
    obtain ⟨fpAddr, hFp, hFpPlace⟩ := h fp
    rw [vmTraceLoop, hLr, ok_bind]
    split
    · exact ⟨[], rfl, Nat.zero_le _, fun _ ht => by cases ht⟩
    rename_i hLrValid
    have hLrOwn := hLrPlace.resolve_right fun hOut => hLrValid hOut.2
    rw [hFp, ok_bind]
    split
    · refine ⟨_, rfl, by simp, ?_⟩
      intro t ht r hr
      rw [List.mem_singleton] at ht
      subst ht
      rw [List.mem_singleton] at hr
      exact ⟨_, hr ▸ hLrOwn⟩
    · rename_i hFpValid
      have hFpOwn := hFpPlace.resolve_right fun hOut => hFpValid hOut.2
      obtain ⟨turns, hTurns, hLength, hReads⟩ := ih (load m fpAddr 8)
      rw [hTurns, ok_bind]
      refine ⟨_, rfl, by simpa using hLength, ?_⟩
      intro t ht r hr
      obtain rfl | ht := List.mem_cons.mp ht
      · simp only [List.mem_cons, List.not_mem_nil, or_false] at hr
        obtain rfl | rfl := hr
        · exact ⟨_, hLrOwn⟩
        · exact ⟨_, hFpOwn⟩
      · exact hReads t ht r hr

theorem viewWord_of_ram (hWord : ∀ ipa x, ram ipa = some x → ipa % 8 = 0 → ∀ k, k < 8 →
    ram (ipa + k) = some (x + k))
    {ipa x : Nat} (hRam : ram ipa = some x) (hAligned : ipa % 8 = 0) :
    viewWord (fun a => (ram a).map m) ipa = some (load m x 8) := by
  rw [viewWord, hRam, Option.map_some, Option.map_some]
  refine congrArg some (load_congr ?_)
  intro k hk
  rw [hWord ipa x hRam hAligned k hk]
  rfl

theorem Reaches.word_none (h : Reaches ramStart toPa fun va => (addr va).bind ram)
    (hValid : ∀ ipa x, ram ipa = some x → isPaValid ramStart x = true) {va pa : Nat} (hPa : toPa va = .ok pa)
    (hOut : isPaValid ramStart pa = false) : (addr va).bind (viewWord fun a => (ram a).map m) = none := by
  obtain ⟨pa', hPa', hPlace⟩ := h va
  rw [hPa] at hPa'
  cases hPa'
  dsimp only at hPlace
  cases hAddr : addr va with
  | none => rfl
  | some ipa =>
    rw [hAddr, Option.bind_some] at hPlace
    obtain hRam | ⟨hNone, _⟩ := hPlace
    · rw [hValid ipa pa hRam] at hOut
      cases hOut
    · rw [Option.bind_some, viewWord, hNone]
      rfl

theorem Reaches.word_some (h : Reaches ramStart toPa fun va => (addr va).bind ram)
    (hWord : ∀ ipa x, ram ipa = some x → ipa % 8 = 0 → ∀ k, k < 8 → ram (ipa + k) = some (x + k))
    (hOffset : ∀ va ipa, addr va = some ipa → ipa % 8 = va % 8) {va pa : Nat} (hPa : toPa va = .ok pa)
    (hIn : ¬isPaValid ramStart pa = false) (hAligned : va % 8 = 0) :
    (addr va).bind (viewWord fun a => (ram a).map m) = some (load m pa 8) := by
  obtain ⟨pa', hPa', hPlace⟩ := h va
  rw [hPa] at hPa'
  cases hPa'
  obtain ⟨ipa, hAddr, hRam⟩ := Option.bind_eq_some_iff.mp (hPlace.resolve_right fun hOut => hIn hOut.2)
  rw [hAddr, Option.bind_some]
  exact viewWord_of_ram hWord hRam (by rw [hOffset va ipa hAddr, hAligned])

theorem Reaches.word_exists (h : Reaches ramStart toPa fun va => (addr va).bind ram) {va pa : Nat}
    (hPa : toPa va = .ok pa) (hIn : ¬isPaValid ramStart pa = false) :
    ∃ v, (addr va).bind (viewWord fun a => (ram a).map m) = some v := by
  obtain ⟨pa', hPa', hPlace⟩ := h va
  rw [hPa] at hPa'
  cases hPa'
  obtain ⟨ipa, hAddr, hRam⟩ := Option.bind_eq_some_iff.mp (hPlace.resolve_right fun hOut => hIn hOut.2)
  rw [hAddr, Option.bind_some, viewWord, hRam]
  exact ⟨_, rfl⟩

/-- The lines of aligned records are those that the memory of the guest gives. -/
theorem Reaches.lines (h : Reaches ramStart toPa fun va => (addr va).bind ram)
    (hValid : ∀ ipa x, ram ipa = some x → isPaValid ramStart x = true)
    (hWord : ∀ ipa x, ram ipa = some x → ipa % 8 = 0 → ∀ k, k < 8 → ram (ipa + k) = some (x + k))
    (hOffset : ∀ va ipa, addr va = some ipa → ipa % 8 = va % 8) {n fp : Nat} {turns : List Turn}
    (hRun : vmTraceLoop toPa ramStart m n fp = .ok turns)
    (hAligned : ∀ line ∈ viewTrace addr (fun a => (ram a).map m) n fp, line.2 % 8 = 0) :
    turns.map (fun t => (t.addr, t.fp)) = viewTrace addr (fun a => (ram a).map m) n fp := by
  induction n generalizing fp turns with
  | zero =>
    cases hRun
    rfl
  | succ n ih =>
    rw [vmTraceLoop] at hRun
    obtain ⟨lrAddr, hLr, hRun⟩ := bind_eq_ok.mp hRun
    rw [viewTrace] at hAligned ⊢
    split at hRun
    · rename_i hOut
      cases hRun
      rw [h.word_none hValid hLr hOut]
      rfl
    rename_i hLrIn
    -- the record has a line, so it is aligned, and both words are where the guest has them
    have hRecord : fp % 8 = 0 := by
      obtain ⟨v, hv⟩ := h.word_exists hLr hLrIn
      rw [hv] at hAligned
      exact hAligned _ List.mem_cons_self
    have hNext : u64 (fp + 8) % 8 = 0 := by
      rw [u64]
      omega
    rw [h.word_some hWord hOffset hLr hLrIn hNext] at hAligned ⊢
    obtain ⟨fpAddr, hFp, hRun⟩ := bind_eq_ok.mp hRun
    split at hRun
    · rename_i hOut
      cases hRun
      rw [h.word_none hValid hFp hOut]
      rfl
    · rename_i hFpIn
      obtain ⟨rest, hRest, hRun⟩ := bind_eq_ok.mp hRun
      cases hRun
      rw [h.word_some hWord hOffset hFp hFpIn hRecord] at hAligned ⊢
      rw [List.map_cons, ih hRest fun line hLine => hAligned line (List.mem_cons_of_mem _ hLine)]

end

theorem par_or_offset {pa va : Nat} (hLt : pa < 2 ^ 48) (hOffset : pa % 4096 = va % 4096) :
    (pa &&& 0x000FFFFFFFFFF000) ||| (va &&& 0xFFF) = pa := by
  have hPage : pa &&& 0x000FFFFFFFFFF000 = pa / 2 ^ 12 % 2 ^ 40 * 2 ^ 12 := Library.BitField.and_field pa 12 40
  have hLow : va &&& 0xFFF = va % 2 ^ 12 := Nat.and_two_pow_sub_one_eq_mod va 12
  rw [hPage, hLow, Library.BitField.or_eq_add _ _ 12 (Nat.mod_lt _ (by decide))]
  omega

theorem guestRam_of_walk {m : Mem} {root ipa ramStart : Nat} {t : Translation} (hWalk : archWalk m root ipa = some t) :
    guestRam m root ipa = some t.pa ∨ (guestRam m root ipa = none ∧ isPaValid ramStart t.pa = false) := by
  rw [guestRam, hWalk, Option.bind_some]
  split
  · rename_i hUart
    refine .inr ⟨rfl, ?_⟩
    rw [isPaValid, decide_eq_false_iff_not, txtStart]
    rw [uartBase] at hUart
    omega
  · exact .inl rfl

theorem guestRam_of_walk_none {m : Mem} {root ipa : Nat} (hWalk : archWalk m root ipa = none) :
    guestRam m root ipa = none := by
  rw [guestRam, hWalk]
  rfl

theorem reaches {s : Hypervisor} {i ramStart : Nat} {node : Nat → Nat → Option Nat}
    (hTree : Tree s.host.mem (s.vms i).stage2Pt node) (hTop : ramStart + ramSize < 2 ^ 64) (w : Stage1)
    (sctlrEl1 spsrEl2 : Nat) :
    Reaches ramStart (traceToPa w sctlrEl1 spsrEl2 s i) fun va =>
      (guestAddr w sctlrEl1 spsrEl2 (ramByte s i) va).bind (guestRam s.host.mem (s.vms i).stage2Pt) := by
  intro va
  dsimp only
  rw [traceToPa, guestAddr]
  split
  · -- the MMU of the guest is on
    refine ⟨_, rfl, ?_⟩
    have hFailed : isPaValid ramStart (2 ^ 64 - 1) = false := by
      rw [isPaValid, decide_eq_false_iff_not]
      omega
    rw [vmVaToPa]
    cases hStage1 : w.walk (ramByte s i) (!(spsrEl2 &&& 4 != 0)) va with
    | none => exact .inr ⟨rfl, hFailed⟩
    | some ipa =>
      rw [Option.bind_some, Option.bind_some]
      cases hWalk : archWalk s.host.mem (s.vms i).stage2Pt ipa with
      | none => exact .inr ⟨guestRam_of_walk_none hWalk, hFailed⟩
      | some t =>
        obtain ⟨hLt, hOffset⟩ := hTree.archWalk_pa hWalk
        dsimp only
        rw [par_or_offset hLt (hOffset.trans (w.offset _ _ _ _ hStage1))]
        exact guestRam_of_walk hWalk
  · obtain ⟨pa, hPa, ⟨t, hWalk, rfl⟩ | ⟨hWalk, hLow⟩⟩ := hTree.ipa2pa_cases va
    · exact ⟨_, hPa, guestRam_of_walk hWalk⟩
    · refine ⟨pa, hPa, .inr ⟨guestRam_of_walk_none hWalk, ?_⟩⟩
      rw [isPaValid, decide_eq_false_iff_not, txtStart]
      omega

theorem guestAddr_offset {w : Stage1} {sctlrEl1 spsrEl2 va ipa : Nat} {view : Nat → Option UInt8}
    (h : guestAddr w sctlrEl1 spsrEl2 view va = some ipa) : ipa % 8 = va % 8 := by
  rw [guestAddr] at h
  split at h
  · have hOffset := w.offset _ _ _ _ h
    omega
  · cases h
    omega

/-- The machine after the boot of the first core, before its first VM. -/
structure Booted (l : LinkerMap) (st : Stacks) (b : Board) : Prop where
  boot : ∃ m a, Linked l m ∧ initMemory l ⟨m, a, []⟩ = .ok st
  text : txtStart ≤ l.ramStart
  host : b.hv.host = st.host
  vms : ∀ i, (b.hv.vms i).used = false ∧ ∀ k, (b.hv.vms i).vcpus k = none
  vcpus : ∀ u, (b.hv.vcpus u).state = .unused

section
variable {l : LinkerMap} {st : Stacks} {b₀ b : Board} {es : List Event}

theorem Booted.fresh (h : Booted l st b₀) : Houses b₀.hv.host b₀.hv [] := by
  obtain ⟨m, a, hLinked, hBoot⟩ := h.boot
  obtain ⟨st', hRun, hStacked⟩ := initMemory_stacked hLinked a
  rw [hBoot] at hRun
  cases hRun
  refine houses_nil ?_ ?_ ?_ h.vms h.vcpus
  all_goals rw [h.host]
  · exact hStacked.ramPool hLinked
  · exact hStacked.granted
  · exact fun _ => hStacked.free_zero

theorem Booted.taken_valid (h : Booted l st b₀) {a : PageAllocator} {p k : Nat}
    (hTaken : Taken b₀.hv.host.allocator a p) (hk : k < 4096) : isPaValid l.ramStart (p + k) = true := by
  obtain ⟨m, a₁, hLinked, hBoot⟩ := h.boot
  obtain ⟨st', hRun, hStacked⟩ := initMemory_stacked hLinked a₁
  rw [hBoot] at hRun
  cases hRun
  rw [h.host] at hTaken
  obtain ⟨n, hFree, _, rfl⟩ := hTaken
  obtain ⟨_, _, hLow, hHigh⟩ := hStacked.free_bounds hFree
  have hText := h.text
  rw [isPaValid, decide_eq_true_iff]
  omega

theorem Booted.top (h : Booted l st b₀) : l.ramStart + ramSize < 2 ^ 64 := by
  obtain ⟨_, _, hLinked, _⟩ := h.boot
  have hBelow := hLinked.below
  omega

end

section
variable {l : LinkerMap} {st : Stacks} {b₀ b : Board} {es : List Event} {u : Nat}

theorem dumpVmCalltrace_running {i : Nat} (ramStart : Nat) (w : Stage1) (sctlrEl1 : Nat)
    (hRunning : (b.hv.vcpus u).state = .running) (hVm : (b.hv.vcpus u).vm = some i) :
    dumpVmCalltrace ramStart w sctlrEl1 b u =
      (vmTraceLoop (traceToPa w sctlrEl1 (b.hv.vcpus u).spsrEl2 b.hv i) ramStart b.hv.host.mem 5 (b.x u 29)).map
        fun turns =>
        some ⟨(b.hv.vms i).name, (b.hv.vcpus u).spsrEl2 &&& 4 != 0, (b.hv.vcpus u).elrEl2, turns⟩ := by
  simp only [dumpVmCalltrace, hRunning, hVm]
  cases vmTraceLoop (traceToPa w sctlrEl1 (b.hv.vcpus u).spsrEl2 b.hv i) ramStart b.hv.host.mem 5 (b.x u 29) with
  | error e => rfl
  | ok turns => rfl

/-- Wherever the registers and the frame records of a guest point, its trace ends and reads words of its own RAM, up
to the end of the page they begin in. -/
theorem vm_calltrace_own_ram (hBooted : Booted l st b₀) (hSteps : Steps b₀ es b)
    (hRunning : (b.hv.vcpus u).state = .running) (w : Stage1) (sctlrEl1 : Nat) :
    ∃ i trace, (b.hv.vcpus u).vm = some i ∧
      dumpVmCalltrace l.ramStart w sctlrEl1 b u = .ok (some trace) ∧ trace.turns.length ≤ 5 ∧
      ∀ turn ∈ trace.turns, ∀ r ∈ turn.reads, ∃ ipa, ∀ k, r % 4096 + k < 4096 →
        guestRam b.hv.host.mem (b.hv.vms i).stage2Pt (ipa + k) = some (r + k) := by
  obtain ⟨ts, hHouses, _⟩ := (hBooted.fresh.simulates.steps hSteps).houses
  obtain ⟨i, hi, hVm⟩ := hHouses.staff u (by rw [hRunning]; decide)
  have hHoused := hHouses.housed i _ (List.getElem?_eq_getElem hi)
  obtain ⟨turns, hTurns, hLength, hReads⟩ :=
    (reaches hHoused.tree hBooted.top w sctlrEl1 (b.hv.vcpus u).spsrEl2).turns
      b.hv.host.mem 5 (b.x u 29)
  have hDump := dumpVmCalltrace_running l.ramStart w sctlrEl1 hRunning hVm
  rw [hTurns] at hDump
  refine ⟨i, _, hVm, hDump, hLength, ?_⟩
  intro turn hTurn r hr
  obtain ⟨va, hPlace⟩ := hReads turn hTurn r hr
  obtain ⟨ipa, _, hRam⟩ := Option.bind_eq_some_iff.mp hPlace
  exact ⟨ipa, (hHoused.word hHouses.start hRam).2⟩

/-- When the frame records of a guest are aligned, the lines of its trace are those of its private memory. -/
theorem vm_calltrace_private (hBooted : Booted l st b₀) (hSteps : Steps b₀ es b)
    (hRunning : (b.hv.vcpus u).state = .running) {i : Nat} (hVm : (b.hv.vcpus u).vm = some i) {p : Nat → Option UInt8}
    (hp : (privates b₀.hv.host.mem es)[i]? = some p) (w : Stage1) (sctlrEl1 : Nat)
    (hAligned : ∀ line ∈ viewTrace (guestAddr w sctlrEl1 (b.hv.vcpus u).spsrEl2 p) p 5 (b.x u 29), line.2 % 8 = 0) :
    ∃ trace, dumpVmCalltrace l.ramStart w sctlrEl1 b u = .ok (some trace) ∧
      trace.turns.map (fun turn => (turn.addr, turn.fp)) =
        viewTrace (guestAddr w sctlrEl1 (b.hv.vcpus u).spsrEl2 p) p 5 (b.x u 29) := by
  have hSim := hBooted.fresh.simulates.steps hSteps
  obtain ⟨ts, hHouses, hLength⟩ := hSim.houses
  have hi : i < ts.length := hLength ▸ (List.getElem?_eq_some_iff.mp hp).1
  have hHoused := hHouses.housed i _ (List.getElem?_eq_getElem hi)
  have hReaches := reaches hHoused.tree hBooted.top w sctlrEl1 (b.hv.vcpus u).spsrEl2
  obtain ⟨turns, hTurns, _⟩ := hReaches.turns b.hv.host.mem 5 (b.x u 29)
  have hDump := dumpVmCalltrace_running l.ramStart w sctlrEl1 hRunning hVm
  rw [hTurns] at hDump
  refine ⟨_, hDump, ?_⟩
  have hView : (fun a => (guestRam b.hv.host.mem (b.hv.vms i).stage2Pt a).map b.hv.host.mem) = p := hSim.ram i p hp
  rw [hSim.ram i p hp, ← hView] at hReaches
  rw [← hView] at hAligned ⊢
  refine hReaches.lines ?_ ?_ (fun va ipa h => guestAddr_offset h) hTurns hAligned
  · intro ipa x hx
    rw [hHoused.guestRam_eq hHouses.start] at hx
    obtain ⟨j, f, hf, _, rfl⟩ := Tenant.place_some hx
    exact hBooted.taken_valid (hHoused.pages f (.inl (List.mem_cons_of_mem _ (List.mem_of_getElem? hf))))
      (Nat.mod_lt _ (by decide))
  · intro ipa x hx hWord k hk
    obtain ⟨hOffset, hNext⟩ := hHoused.word hHouses.start hx
    exact hNext k (by omega)

end

def identityStage1 : Stage1 := ⟨fun _ _ va => some va, fun _ _ _ _ h => by cases h; rfl⟩

theorem smallMap_running : ∃ st b₀ b, Booted smallMap st b₀ ∧
    Steps b₀ [.create smallCfg smallImg, .enter 0] b ∧
    (b.hv.vcpus 0).state = .running ∧ (b.hv.vcpus 0).vm = some 0 ∧ b.x 0 29 = 0x80000100 := by
  obtain ⟨st, b, hBoot, hSteps, hX, hReady, hCpuid, hVm⟩ := smallMap_created fun _ _ => 0x80000100
  refine ⟨st, _, _, ⟨⟨_, _, smallMap_linked, hBoot⟩, by decide, rfl, fun _ => ⟨rfl, fun _ => rfl⟩, fun _ =>
    rfl⟩, hSteps.enter (by decide) hReady hCpuid, ?_, ?_, ?_⟩
  · dsimp only
    rw [Trap.vcpus_editVcpu, if_pos rfl]
  · dsimp only
    rw [Trap.vcpus_editVcpu, if_pos rfl]
    exact hVm
  · exact congrFun (congrFun hX 0) 29

theorem vm_calltrace_own_ram_small : ∃ b trace, (b.hv.vcpus 0).vm = some 0 ∧
    dumpVmCalltrace smallMap.ramStart identityStage1 1 b 0 = .ok (some trace) ∧ trace.turns.length ≤ 5 := by
  obtain ⟨st, b₀, b, hBooted, hSteps, hRunning, hVm, _⟩ := smallMap_running
  obtain ⟨i, trace, _, hDump, hLength, _⟩ := vm_calltrace_own_ram hBooted hSteps hRunning identityStage1 1
  exact ⟨b, trace, hVm, hDump, hLength⟩

theorem smallTrace (m : Mem) (spsrEl2 : Nat) :
    viewTrace (guestAddr identityStage1 0 spsrEl2 (loadedRam m smallCfg smallImg))
    (loadedRam m smallCfg smallImg) 5 0x80000100 = [(2 ^ 64 - 4, 0x80000100)] := by
  have hZero : ∀ a, 0x80000100 ≤ a → a < 0x80000110 → loadedRam m smallCfg smallImg a = some 0 := by
    intro a hLow hHigh
    have hBytes : ramBytes smallCfg smallImg = 0x2000 := by decide
    have hSize : guestFilesz smallImg = 0x32 := by decide
    have hEntry : smallCfg.entrypoint = 0x80000000 := rfl
    rw [loadedRam, hBytes, hSize, hEntry, if_pos (by omega), if_neg (by omega)]
  have hWord : ∀ a, 0x80000100 ≤ a → a + 8 ≤ 0x80000110 →
      viewWord (loadedRam m smallCfg smallImg) a = some 0 := by
    intro a hLow hHigh
    rw [viewWord, hZero a hLow (by omega), Option.map_some]
    refine congrArg some (load_zero fun k hk => ?_)
    rw [hZero (a + k) (by omega) (by omega)]
    rfl
  have hNone : viewWord (loadedRam m smallCfg smallImg) 8 = none := rfl
  have hAddr : ∀ va, guestAddr identityStage1 0 spsrEl2 (loadedRam m smallCfg smallImg) va = some (va % 2 ^ 48) :=
    fun _ => rfl
  rw [viewTrace, hAddr, hAddr, Option.bind_some, Option.bind_some, hWord _ (by decide) (by decide), hWord _ (by decide)
    (by decide)]
  dsimp only
  have hOut : u64 (0 + 8) % 2 ^ 48 = 8 := by decide
  have hLr : u64 (0 + (2 ^ 64 - 4)) = 2 ^ 64 - 4 := by decide
  rw [viewTrace, hAddr, Option.bind_some, hOut, hNone, hLr]

theorem vm_calltrace_private_small :
    ∃ b trace, dumpVmCalltrace smallMap.ramStart identityStage1 0 b 0 = .ok (some trace) ∧
    trace.turns.map (fun turn => (turn.addr, turn.fp)) = [(2 ^ 64 - 4, 0x80000100)] := by
  obtain ⟨st, b₀, b, hBooted, hSteps, hRunning, hVm, hX⟩ := smallMap_running
  have hp : (privates b₀.hv.host.mem [.create smallCfg smallImg, .enter 0])[0]? =
      some (loadedRam b₀.hv.host.mem smallCfg smallImg) := rfl
  have hTrace := vm_calltrace_private hBooted hSteps hRunning hVm hp identityStage1 0
  rw [hX, smallTrace] at hTrace
  obtain ⟨trace, hDump, hLines⟩ := hTrace (by decide)
  exact ⟨b, trace, hDump, hLines⟩

end HyperPoc.Calltrace
