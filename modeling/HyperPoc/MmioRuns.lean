import HyperPoc.Library.LinkedList
import HyperPoc.Trap.Emulate
import Mathlib.Data.List.Nodup
import Mathlib.Data.List.Perm.Subperm

/-! # Registrations of several VMs

All VMs register into the one array of `Mmio`. The nodes are never given back, so a registration takes a
node that no list visits, and links it in front of the list of its own VM only. The lists are indexed
by an arbitrary type of VMs, and the handlers are arbitrary functions.
-/
namespace HyperPoc.Trap
open Library.LinkedList Library.Run
set_option autoImplicit false

/-- What a call of `mmio_reg_handler` asks for. -/
structure Region (H : Type) where
  ipa : Nat
  size : Nat
  read : Option H
  write : Option H

def Region.Valid {H : Type} (r : Region H) : Prop := 0 < r.size ∧ r.ipa + r.size < 2 ^ 64

def Region.Holds {H : Type} (r : Region H) (ipa : Nat) : Prop := r.ipa ≤ ipa ∧ ipa < r.ipa + r.size

instance {H : Type} (r : Region H) (ipa : Nat) : Decidable (r.Holds ipa) := inferInstanceAs (Decidable (_ ∧ _))

def Region.handler {H : Type} (r : Region H) (issWnr : Nat) : Option H := if issWnr ≠ 0 then r.write else r.read

def region {H : Type} (mmio : MmioInfo H) : Region H := ⟨mmio.ipaBase, mmio.size, mmio.read, mmio.write⟩

structure Registry (V H : Type) where
  pool : Nat → MmioInfo H
  lists : V → Option Nat

/-- `mmio_emulate` for handlers that work on any state. -/
def mmioEmulateWith {H σ : Type} (read write : H → Nat → σ → Outcome (σ × Int)) (pool : Nat → MmioInfo H)
    (mmioList : Option Nat) (ipa issWnr : Nat) (s : σ) : Outcome (σ × Int) := do
  match ← findMmio pool ipa mmioInfoMax mmioList with
  | none => return (s, -1)
  | some mmio =>
    if issWnr ≠ 0 then
      match mmio.write with
      | none => return (s, -1)
      | some handler => write handler (ipa - mmio.ipaBase) s
    else
      match mmio.read with
      | none => return (s, -1)
      | some handler => read handler (ipa - mmio.ipaBase) s

/-- On the board the handlers are those of the devices. -/
theorem mmioEmulate_eq {b : Board} {vcpu vm : Nat} (hVm : (b.hv.vcpus vcpu).vm = some vm) (n cpu regIdx : Nat)
    (access : MmioAccess) :
    mmioEmulate n b cpu vcpu regIdx access =
      mmioEmulateWith
        (fun handler offset b => do
          let (ret, val) ← callRead b vcpu offset (destination b vcpu regIdx) handler
          return (setDestination b vcpu regIdx val, ret))
        (fun handler offset b => callWrite n b cpu vcpu offset (source b vcpu regIdx) handler)
        b.hv.mmio (b.hv.vms vm).mmioList access.ipa access.issWnr b := by
  simp only [mmioEmulate, mmioEmulateWith, hVm, deref, ok_bind]
  cases findMmio b.hv.mmio access.ipa mmioInfoMax (b.hv.vms vm).mmioList with
  | error _ => rfl
  | ok found =>
    cases found with
    | none => rfl
    | some mmio =>
      obtain ⟨_, _, _, read, write⟩ := mmio
      cases read <;> cases write <;> rfl

section
variable {V H : Type} [DecidableEq V] {x : Registry V H} {log : List (V × Region H)} {v : V} {r : Region H}

def Registry.register (x : Registry V H) (v : V) (r : Region H) : Registry V H × Int :=
  match mmioRegHandler x.pool (x.lists v) r.ipa r.size r.read r.write with
  | ((pool, list), ret) => (⟨pool, Function.update x.lists v list⟩, ret)

/-- The registries that calls reach from an array of free nodes, with the successful calls, newest first. -/
inductive Registered : Registry V H → List (V × Region H) → Prop
  | start {pool : Nat → MmioInfo H} : (∀ i < mmioInfoMax, (pool i).size = 0) →
    Registered ⟨pool, fun _ => none⟩ []
  | success {x : Registry V H} {log : List (V × Region H)} {v : V} {r : Region H} : Registered x log → r.Valid →
      (x.register v r).2 = 0 → Registered (x.register v r).1 ((v, r) :: log)
  | failure {x : Registry V H} {log : List (V × Region H)} {v : V} {r : Region H} : Registered x log → r.Valid →
      (x.register v r).2 ≠ 0 → Registered (x.register v r).1 log

/-- The regions of a VM, newest first. -/
def regionsOf (log : List (V × Region H)) (v : V) : List (Region H) :=
  (log.filter (fun c => decide (c.1 = v))).map Prod.snd

def newest (log : List (V × Region H)) (v : V) (ipa : Nat) : Option (Region H) :=
  (regionsOf log v).find? (fun r => decide (r.Holds ipa))

/-- What an access of `v` at `ipa` has to do. -/
def dispatch {σ : Type} (read write : H → Nat → σ → Outcome (σ × Int)) (log : List (V × Region H)) (v : V)
    (ipa issWnr : Nat) (s : σ) : Outcome (σ × Int) :=
  match newest log v ipa with
  | none => .ok (s, -1)
  | some r =>
    match r.handler issWnr with
    | none => .ok (s, -1)
    | some handler => (if issWnr ≠ 0 then write else read) handler (ipa - r.ipa) s

/-- The lists keep the successful registrations, and accesses see them. -/
structure Registry.Keeps (x : Registry V H) (log : List (V × Region H)) : Prop where
  lists : ∃ nodes : V → List Nat,
    (∀ v, Links (fun i => (x.pool i).next) (x.lists v) (nodes v) ∧ (nodes v).Nodup ∧
      (nodes v).map (fun i => region (x.pool i)) = regionsOf log v) ∧
    ∀ v w, v ≠ w → (nodes v).Disjoint (nodes w)
  register : ∀ v r, r.Valid → (x.register v r).2 = if log.length < mmioInfoMax then 0 else -1
  full : ∀ v r, r.Valid → (∀ i < mmioInfoMax, (x.pool i).size ≠ 0) → x.register v r = (x, -1)
  emulate : ∀ {σ : Type} (read write : H → Nat → σ → Outcome (σ × Int)) v ipa issWnr s,
    mmioEmulateWith read write x.pool (x.lists v) ipa issWnr s = dispatch read write log v ipa issWnr s
  offset : ∀ v ipa r, newest log v ipa = some r → ipa - r.ipa < r.size

theorem Registry.register_cases (x : Registry V H) (v : V) (hValid : r.Valid) :
    (∀ i < mmioInfoMax, (x.pool i).size ≠ 0) ∧ x.register v r = (x, -1) ∨
      ∃ i < mmioInfoMax, (x.pool i).size = 0 ∧ x.register v r =
        (⟨Function.update x.pool i ⟨x.lists v, r.ipa, r.size, r.read, r.write⟩,
          Function.update x.lists v (some i)⟩, 0) := by
  rcases mmioRegHandler_cases x.pool (x.lists v) r.ipa r.read r.write hValid.1.ne' with
    ⟨hUsed, hCall⟩ | ⟨i, hi, hFree, hCall⟩
  · refine .inl ⟨hUsed, ?_⟩
    rw [Registry.register, hCall]
    simp only [Function.update_eq_self]
  · refine .inr ⟨i, hi, hFree, ?_⟩
    rw [Registry.register, hCall]

/-- The nodes of a VM, among all that were taken. -/
def nodesOf (taken : List (Nat × V × Region H)) (v : V) : List Nat :=
  (taken.filter (fun e => decide (e.2.1 = v))).map Prod.fst

/-- The array as the successful registrations left it, each with the node it took. -/
structure Registry.Inv (x : Registry V H) (taken : List (Nat × V × Region H)) : Prop where
  nodup : (taken.map Prod.fst).Nodup
  used : ∀ i < mmioInfoMax, (x.pool i).size ≠ 0 ↔ i ∈ taken.map Prod.fst
  bound : ∀ e ∈ taken, e.1 < mmioInfoMax
  valid : ∀ e ∈ taken, e.2.2.Valid
  regions : ∀ e ∈ taken, region (x.pool e.1) = e.2.2
  links : ∀ v, Links (fun i => (x.pool i).next) (x.lists v) (nodesOf taken v)

section
variable {taken : List (Nat × V × Region H)}

theorem mem_nodesOf {i : Nat} : i ∈ nodesOf taken v ↔ ∃ r, (i, v, r) ∈ taken := by
  simp [nodesOf]

theorem nodesOf_cons_self (i : Nat) : nodesOf ((i, v, r) :: taken) v = i :: nodesOf taken v := by
  simp [nodesOf]

theorem nodesOf_cons_ne {w : V} (i : Nat) (hNe : v ≠ w) : nodesOf ((i, v, r) :: taken) w = nodesOf taken w := by
  simp [nodesOf, hNe]

namespace Registry.Inv

theorem start {pool : Nat → MmioInfo H} (hEmpty : ∀ i < mmioInfoMax, (pool i).size = 0) :
    Inv (⟨pool, fun _ => none⟩ : Registry V H) [] where
  nodup := List.nodup_nil
  used := fun i hi => by simp [hEmpty i hi]
  bound := fun e he => nomatch he
  valid := fun e he => nomatch he
  regions := fun e he => nomatch he
  links := fun _ => .nil

theorem take {y : Registry V H} (h : x.Inv taken) {i : Nat} (hi : i < mmioInfoMax) (hFree : (x.pool i).size = 0)
    (hValid : r.Valid) (hPool : y.pool = Function.update x.pool i ⟨x.lists v, r.ipa, r.size, r.read, r.write⟩)
    (hLists : y.lists = Function.update x.lists v (some i)) : y.Inv ((i, v, r) :: taken) := by
  have hNew : i ∉ taken.map Prod.fst := fun hMem => (h.used i hi).mpr hMem hFree
  have hOld : ∀ e ∈ taken, y.pool e.1 = x.pool e.1 := by
    intro e he
    rw [hPool, Function.update_of_ne]
    rintro rfl
    exact hNew (List.mem_map_of_mem he)
  have hNodes : ∀ w, ∀ j ∈ nodesOf taken w, (y.pool j).next = (x.pool j).next := by
    intro w j hj
    obtain ⟨_, hMem⟩ := mem_nodesOf.mp hj
    rw [hOld _ hMem]
  have hTaken : y.pool i = ⟨x.lists v, r.ipa, r.size, r.read, r.write⟩ := by rw [hPool, Function.update_self]
  constructor
  · exact List.nodup_cons.mpr ⟨hNew, h.nodup⟩
  · intro j hj
    by_cases hEq : j = i
    · rw [hEq, hTaken]
      simpa using hValid.1.ne'
    · rw [hPool, Function.update_of_ne hEq, h.used j hj]
      simp [hEq]
  · exact List.forall_mem_cons.mpr ⟨hi, h.bound⟩
  · exact List.forall_mem_cons.mpr ⟨hValid, h.valid⟩
  · refine List.forall_mem_cons.mpr ⟨by rw [hTaken, region], fun e he => ?_⟩
    rw [hOld e he]
    exact h.regions e he
  · intro w
    rw [hLists]
    by_cases hEq : v = w
    · subst hEq
      rw [Function.update_self, nodesOf_cons_self]
      exact (h.links v).push (by rw [hTaken]) (hNodes v)
    · rw [Function.update_of_ne (Ne.symm hEq), nodesOf_cons_ne i hEq]
      exact (h.links w).congr (hNodes w)

theorem nodes_subset (h : x.Inv taken) : taken.map Prod.fst ⊆ List.range mmioInfoMax := by
  intro i hi
  obtain ⟨e, he, rfl⟩ := List.mem_map.mp hi
  exact List.mem_range.mpr (h.bound e he)

theorem full_iff (h : x.Inv taken) : (∀ i < mmioInfoMax, (x.pool i).size ≠ 0) ↔ mmioInfoMax ≤ taken.length := by
  constructor
  · intro hUsed
    have hSub : List.range mmioInfoMax ⊆ taken.map Prod.fst :=
      fun i hi => (h.used i (List.mem_range.mp hi)).mp (hUsed i (List.mem_range.mp hi))
    simpa using (List.nodup_range.subperm hSub).length_le
  · intro hLength i hi hFree
    -- with the free node there would be more than 64
    have hNodup : (i :: taken.map Prod.fst).Nodup :=
      List.nodup_cons.mpr ⟨fun hMem => (h.used i hi).mpr hMem hFree, h.nodup⟩
    have hSub := List.cons_subset.mpr ⟨List.mem_range.mpr hi, h.nodes_subset⟩
    have hMore := (hNodup.subperm hSub).length_le
    simp only [List.length_cons, List.length_map, List.length_range] at hMore
    omega

theorem nodes_nodup (h : x.Inv taken) (v : V) : (nodesOf taken v).Nodup :=
  h.nodup.sublist (List.filter_sublist.map Prod.fst)

theorem nodes_length (h : x.Inv taken) (v : V) : (nodesOf taken v).length ≤ mmioInfoMax := by
  have hSub : nodesOf taken v ⊆ List.range mmioInfoMax :=
    fun _ hi => h.nodes_subset ((List.filter_sublist.map Prod.fst).subset hi)
  simpa using ((h.nodes_nodup v).subperm hSub).length_le

theorem nodes_disjoint (h : x.Inv taken) {v w : V} (hNe : v ≠ w) : (nodesOf taken v).Disjoint (nodesOf taken w) := by
  intro i hv hw
  obtain ⟨r, hr⟩ := mem_nodesOf.mp hv
  obtain ⟨q, hq⟩ := mem_nodesOf.mp hw
  have hEq := List.inj_on_of_nodup_map h.nodup hr hq rfl
  exact hNe (congrArg (fun e => e.2.1) hEq)

theorem nodes_regions (h : x.Inv taken) (v : V) :
    (nodesOf taken v).map (fun i => region (x.pool i)) = regionsOf (taken.map Prod.snd) v := by
  rw [nodesOf, regionsOf, List.filter_map, List.map_map, List.map_map]
  exact List.map_congr_left (fun e he => h.regions e (List.mem_of_mem_filter he))

end Registry.Inv
end

theorem findMmio_links {pool : Nat → MmioInfo H} {head : Option Nat} {nodes : List Nat} {n : Nat} (ipa : Nat)
    (h : Links (fun i => (pool i).next) head nodes) (hFuel : nodes.length ≤ n)
    (hValid : ∀ i ∈ nodes, (region (pool i)).Valid) :
    findMmio pool ipa n head = .ok (Option.map pool (nodes.find? (fun i => decide ((region (pool i)).Holds ipa)))) := by
  induction h generalizing n with
  | nil => rw [findMmio, List.find?_nil, Option.map_none]
  | @cons i l _ ih =>
    obtain ⟨n, rfl⟩ : ∃ m, n = m + 1 := Nat.exists_eq_add_one.mpr (Nat.lt_of_lt_of_le (Nat.succ_pos _) hFuel)
    have hEnd : u64 ((pool i).ipaBase + (pool i).size) = (pool i).ipaBase + (pool i).size :=
      u64_of_lt (hValid i List.mem_cons_self).2
    rw [findMmio, hEnd, List.find?_cons]
    by_cases hHolds : (pool i).ipaBase ≤ ipa ∧ ipa < (pool i).ipaBase + (pool i).size
    · have hRegion : (region (pool i)).Holds ipa := hHolds
      rw [if_pos hHolds, decide_eq_true hRegion, Option.map_some]
    · have hRegion : ¬(region (pool i)).Holds ipa := hHolds
      rw [if_neg hHolds, decide_eq_false hRegion]
      exact ih (Nat.le_of_succ_le_succ hFuel) (fun j hj => hValid j (List.mem_cons_of_mem i hj))

theorem mmioEmulateWith_eq {σ : Type} (read write : H → Nat → σ → Outcome (σ × Int))
    {pool : Nat → MmioInfo H} {list : Option Nat} {ipa : Nat} {found : Option (MmioInfo H)} (issWnr : Nat) (s : σ)
    (hFind : findMmio pool ipa mmioInfoMax list = .ok found) (hNewest : found.map region = newest log v ipa) :
    mmioEmulateWith read write pool list ipa issWnr s = dispatch read write log v ipa issWnr s := by
  rw [mmioEmulateWith, hFind, dispatch, ← hNewest, ok_bind]
  cases found with
  | none => rfl
  | some mmio =>
    by_cases hWnr : issWnr = 0
    · simp only [hWnr, Option.map_some, Region.handler, region, ne_eq, not_true_eq_false, if_false]
      cases mmio.read <;> rfl
    · simp only [hWnr, Option.map_some, Region.handler, region, ne_eq, not_false_eq_true, if_true]
      cases mmio.write <;> rfl

theorem Registered.inv (h : Registered x log) : ∃ taken, x.Inv taken ∧ taken.map Prod.snd = log := by
  induction h with
  | start hEmpty => exact ⟨[], .start hEmpty, rfl⟩
  | @success x log v r _ hValid hOk ih =>
    obtain ⟨taken, hInv, rfl⟩ := ih
    rcases x.register_cases v hValid with ⟨_, hCall⟩ | ⟨i, hi, hFree, hCall⟩
    · rw [hCall] at hOk
      cases hOk
    · rw [hCall]
      exact ⟨(i, v, r) :: taken, hInv.take hi hFree hValid rfl rfl, rfl⟩
  | @failure x log v r _ hValid hFail ih =>
    rcases x.register_cases v hValid with ⟨_, hCall⟩ | ⟨i, hi, hFree, hCall⟩
    · rw [hCall]
      exact ih
    · rw [hCall] at hFail
      exact absurd rfl hFail

theorem newest_offset {ipa : Nat} (h : newest log v ipa = some r) : ipa - r.ipa < r.size := by
  rw [newest] at h
  have hHolds : r.Holds ipa := by simpa using List.find?_some h
  obtain ⟨hFrom, hTo⟩ := hHolds
  omega

theorem registered_keeps (h : Registered x log) : x.Keeps log := by
  obtain ⟨taken, hInv, rfl⟩ := h.inv
  constructor
  · refine ⟨nodesOf taken, fun v => ?_, fun v w hNe => hInv.nodes_disjoint hNe⟩
    exact ⟨hInv.links v, hInv.nodes_nodup v, hInv.nodes_regions v⟩
  · intro v r hValid
    rw [List.length_map]
    rcases x.register_cases v hValid with ⟨hUsed, hCall⟩ | ⟨i, hi, hFree, hCall⟩
    · rw [hCall, if_neg (Nat.not_lt.mpr (hInv.full_iff.mp hUsed))]
    · have hRoom : taken.length < mmioInfoMax := by
        refine Nat.lt_of_not_le (fun hFull => ?_)
        exact hInv.full_iff.mpr hFull i hi hFree
      rw [hCall, if_pos hRoom]
  · intro v r hValid hUsed
    rcases x.register_cases v hValid with ⟨_, hCall⟩ | ⟨i, hi, hFree, _⟩
    · exact hCall
    · exact absurd hFree (hUsed i hi)
  · intro σ read write v ipa issWnr s
    have hValid : ∀ i ∈ nodesOf taken v, (region (x.pool i)).Valid := by
      intro i hi
      obtain ⟨r, hMem⟩ := mem_nodesOf.mp hi
      rw [hInv.regions _ hMem]
      exact hInv.valid _ hMem
    refine mmioEmulateWith_eq read write issWnr s (findMmio_links ipa (hInv.links v) (hInv.nodes_length v) hValid) ?_
    rw [newest, ← hInv.nodes_regions, List.find?_map, Option.map_map]
    rfl
  · exact fun v ipa r hNewest => newest_offset hNewest

end

def noRegions : Registry Bool Handler := ⟨fun _ => ⟨none, 0, 0, none, none⟩, fun _ => none⟩

/-- The distributor of one VM, and over its end a region of the same VM without a write handler. -/
def overlapping : List (Bool × Region Handler) :=
  [(true, ⟨0x800ff00, 0x1000, some .virtio, none⟩), (true, ⟨0x8000000, 0x10000, some .vgicd, some .vgicd⟩)]

def registered : Registry Bool Handler :=
  overlapping.foldr (fun c x => (x.register c.1 c.2).1) noRegions

theorem registered_keeps_overlapping :
    registered.Keeps overlapping ∧ newest overlapping true 0x800ff80 = overlapping.head?.map Prod.snd := by
  have hStart : Registered noRegions [] := .start (fun _ _ => rfl)
  have hFirst := hStart.success (v := true) (r := ⟨0x8000000, 0x10000, some .vgicd, some .vgicd⟩)
    ⟨by decide, by decide⟩ rfl
  have hBoth := hFirst.success (v := true) (r := ⟨0x800ff00, 0x1000, some .virtio, none⟩)
    ⟨by decide, by decide⟩ rfl
  exact ⟨registered_keeps hBoth, rfl⟩

end HyperPoc.Trap
