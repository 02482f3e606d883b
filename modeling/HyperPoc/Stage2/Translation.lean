import HyperPoc.Stage2.Refinement

/-! # Software translation of guest addresses

`ipa2pa` reads the level 3 entry that bits 47 to 12 of an address lead to and returns its address
field, whether or not the entry is valid and whatever the bits from 48 on are.
-/
namespace HyperPoc.Stage2
open Library.Memory Library.RadixTable Library.Run
set_option autoImplicit false

/-- The level 3 entry bits 47 to 12 of `ipa` lead to, if there is a level 3 table for them. -/
def lastEntry (m : Mem) (root ipa : Nat) : Option Nat :=
  (descend shape (descriptor m) (pageKey ipa) 3 0 root).map fun t => descriptor m t (pageKey ipa % 512)

def archPa (m : Mem) (root ipa : Nat) : Nat :=
  match archWalk m root ipa with
  | some t => t.pa
  | none => 0

section
variable {m : Mem} {root : Nat} {node : Nat → Nat → Option Nat}

theorem Tree.lastEntry_eq (h : Tree m root node) (ipa : Nat) :
    lastEntry m root ipa = (node 3 (pageKey ipa / 512)).map fun t => descriptor m t (pageKey ipa % 512) := by
  have hRoot : node 0 (shape.pre 0 (pageKey ipa)) = some root := by
    rw [pre_zero]
    exact h.rep.root_node
  have hDescend := h.rep.descend_eq (pageKey ipa) 3 0 root (by decide) hRoot
  rw [pre_three] at hDescend
  rw [lastEntry, hDescend]

theorem Tree.archWalk_lastEntry (h : Tree m root node) {ipa : Nat} (hIpa : ipa < 2 ^ 48) :
    archWalk m root ipa = ((lastEntry m root ipa).bind page).map
      fun desc => ⟨desc, outputAddress desc + ipa % 4096⟩ := by
  rw [h.archWalk_eq ipa hIpa, h.lastEntry_eq, pageKey_of_lt hIpa, leafDesc_eq, Option.bind_map,
    Function.comp_def]

end

theorem Tree.ipa2pa_eq {h : Host} {root : Nat} {node : Nat → Nat → Option Nat} (hTree : Tree h.mem root node)
    (ipa : Nat) : ipa2pa h root ipa = .ok (match lastEntry h.mem root ipa with
      | some desc => outputAddress desc + ipa % 4096
      | none => 0) := by
  have hPos := hTree.pos 0 0 root hTree.rep.root_node
  have hMask : ipa &&& (pageSize - 1) = ipa % 4096 := Nat.and_two_pow_sub_one_eq_mod ipa 12
  rw [ipa2pa, if_neg (by omega), hTree.pagewalk_read ipa, hTree.lastEntry_eq ipa]
  change (if entryAddr node (pageKey ipa) = 0 then _ else _) = _
  rw [entryAddr]
  cases hNode : node 3 (pageKey ipa / 512) with
  | none => rfl
  | some t =>
    have hPage := hTree.pos _ _ _ hNode
    have hAddr := outputAddress_lt (descriptor h.mem t (pageKey ipa % 512))
    rw [if_neg (by dsimp only; omega)]
    change Except.ok (u64 (ptePa (descriptor h.mem t (pageKey ipa % 512)) + (ipa &&& (pageSize - 1)))) = _
    rw [hMask, ptePa_eq, u64_of_lt (by omega)]
    rfl

theorem Tree.ipa2pa_iff {h : Host} {root : Nat} {node : Nat → Nat → Option Nat} (hTree : Tree h.mem root node)
    (ipa : Nat) : ipa2pa h root ipa = .ok (archPa h.mem root ipa) ↔
      (archWalk h.mem root ipa).isSome ∨ lastEntry h.mem root ipa = none ∨
        (ipa % 4096 = 0 ∧ ∃ desc, lastEntry h.mem root ipa = some desc ∧ outputAddress desc = 0) := by
  rw [hTree.ipa2pa_eq ipa, Except.ok.injEq]
  cases hEntry : lastEntry h.mem root ipa with
  | none =>
    have hNone : archWalk h.mem root ipa = none := by
      by_cases hIpa : ipa < 2 ^ 48
      · rw [hTree.archWalk_lastEntry hIpa, hEntry]
        rfl
      · rw [archWalk, if_neg hIpa]
    simp [archPa, hNone]
  | some desc =>
    cases hWalk : archWalk h.mem root ipa with
    | none =>
      simp only [archPa, hWalk, Option.isSome_none, Bool.false_eq_true, reduceCtorEq, Option.some.injEq,
        exists_eq_left', false_or]
      omega
    | some t =>
      have hIpa := lt_of_archWalk hWalk
      rw [hTree.archWalk_lastEntry hIpa, hEntry, Option.bind_some, page] at hWalk
      split at hWalk
      · cases hWalk
        simp [archPa, hTree.archWalk_lastEntry hIpa, page, *]
      · cases hWalk

theorem Tree.ipa2pa_of_unmapped {h : Host} {root : Nat} {node : Nat → Nat → Option Nat}
    (hTree : Tree h.mem root node) {ipa : Nat} (hIpa : ipa < 2 ^ 48) (hAligned : ipa % 4096 = 0)
    (hNone : archWalk h.mem root ipa = none) : ipa2pa h root ipa = .ok 0 := by
  rw [hTree.ipa2pa_eq ipa]
  rw [hTree.archWalk_lastEntry hIpa] at hNone
  cases hEntry : lastEntry h.mem root ipa with
  | none => rfl
  | some desc =>
    rw [hEntry, Option.bind_some, Option.map_eq_none_iff, page] at hNone
    split at hNone
    · cases hNone
    · rename_i hNot
      rw [hTree.lastEntry_eq] at hEntry
      obtain ⟨t, hNode, rfl⟩ := Option.map_eq_some_iff.mp hEntry
      have hZero := hTree.clean _ t _ hNode (Nat.mod_lt _ (by decide)) hNot
      dsimp only
      rw [hZero, hAligned]
      rfl

/-- On every table built by `pagemap` and `pageunmap`, software and hardware agree on an address
exactly when it is mapped, or no level 3 table covers its low 48 bits, or the entry found there and
the page offset are both zero. -/
theorem ipa2pa_agrees_iff {root : Nat} {h₀ h : Host} {ops : List Op} (hZero : Zero h₀.mem root 4096)
    (hAligned : root % 4096 = 0) (hPos : 0 < root) (hBound : root < 2 ^ 48)
    (hRange : ∀ op ∈ ops, op.InRange) (hRun : ops.foldlM (Op.exec root) h₀ = .ok h)
    (hBlank : ∀ g ∈ h.grants, BlankPage root g) (ipa : Nat) :
    ipa2pa h root ipa = .ok (archPa h.mem root ipa) ↔
      (archWalk h.mem root ipa).isSome ∨ lastEntry h.mem root ipa = none ∨
        (ipa % 4096 = 0 ∧ ∃ desc, lastEntry h.mem root ipa = some desc ∧ outputAddress desc = 0) := by
  obtain ⟨node₀, hStores₀⟩ := stores_empty hZero hAligned hPos hBound
  obtain ⟨node, hStores⟩ := foldlM_stores hStores₀ hRange hRun hBlank
  exact hStores.tree.ipa2pa_iff ipa

theorem twoPages_wrong : returns (twoPages.foldlM (Op.exec 0x40000000) rootHost) (fun h =>
    archWalk h.mem 0x40000000 0x1ff234 == none &&
    decide (ipa2pa h 0x40000000 0x1ff234 = .ok 0x234) &&
    archWalk h.mem 0x40000000 (2 ^ 48 + 0x200000) == none &&
    decide (ipa2pa h 0x40000000 (2 ^ 48 + 0x200000) = .ok 0x50001000) &&
    decide (archWalk h.mem 0x40000000 0x200010 = some ⟨0x500014c7, 0x50001010⟩)) = true := by
  decide +kernel

/-- Page 0x1ff000 has been unmapped, and no address from 2^48 on is mapped. -/
theorem ipa2pa_unmapped : ∃ h, twoPages.foldlM (Op.exec 0x40000000) rootHost = .ok h ∧
    (∀ g ∈ h.grants, BlankPage 0x40000000 g) ∧
    archWalk h.mem 0x40000000 0x1ff234 = none ∧ ipa2pa h 0x40000000 0x1ff234 = .ok 0x234 ∧
    archWalk h.mem 0x40000000 (2 ^ 48 + 0x200000) = none ∧
    ipa2pa h 0x40000000 (2 ^ 48 + 0x200000) = .ok 0x50001000 := by
  obtain ⟨h, hRun, hTests⟩ := exists_of_returns twoPages_wrong
  simp only [Bool.and_eq_true, beq_iff_eq, decide_eq_true_eq] at hTests
  obtain ⟨⟨⟨⟨hNone, hLeak⟩, hNone'⟩, hLeak'⟩, _⟩ := hTests
  exact ⟨h, hRun, twoPages_blank hRun, hNone, hLeak, hNone', hLeak'⟩

theorem ipa2pa_agrees_mapped : ∃ h, twoPages.foldlM (Op.exec 0x40000000) rootHost = .ok h ∧
    ipa2pa h 0x40000000 0x200010 = .ok (archPa h.mem 0x40000000 0x200010) ∧
    ipa2pa h 0x40000000 0x1ff234 ≠ .ok (archPa h.mem 0x40000000 0x1ff234) := by
  obtain ⟨h, hRun, hTests⟩ := exists_of_returns twoPages_wrong
  simp only [Bool.and_eq_true, beq_iff_eq, decide_eq_true_eq] at hTests
  obtain ⟨⟨⟨⟨hNone, hLeak⟩, _⟩, _⟩, hMapped⟩ := hTests
  refine ⟨h, hRun, ?_, ?_⟩
  · apply (ipa2pa_agrees_iff (fun _ _ => rfl) (by decide) (by decide) (by decide) (by decide) hRun
      (twoPages_blank hRun) 0x200010).mpr
    rw [hMapped]
    exact .inl rfl
  · rw [hLeak, archPa, hNone]
    decide

end HyperPoc.Stage2
