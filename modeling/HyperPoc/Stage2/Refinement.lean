import HyperPoc.Stage2.Ownership

/-! # The tables refine a map of pages

An abstract address space is a partial map from page numbers to a frame number and attribute bits.
A sequence of `pagemap` and `pageunmap` calls that returns is simulated by the same updates of the
abstract map, seen through the hardware walk.
-/
namespace HyperPoc.Stage2
open Library.Memory Library.RadixTable Library.Run
set_option autoImplicit false

abbrev PageMap : Type := Nat → Option (Nat × Nat)

inductive Op where
  | map (va pa size attr : Nat)
  | unmap (va size : Nat)
  deriving DecidableEq

def Op.exec (root : Nat) (h : Host) : Op → Outcome Host
  | .map va pa size attr => pagemap h root va pa size attr
  | .unmap va size => pageunmap h root va size

def Op.Covers (key : Nat) : Op → Prop
  | .map va _ size _ => va / 4096 ≤ key ∧ key < (va + size) / 4096
  | .unmap va size => va / 4096 ≤ key ∧ key < (va + size) / 4096

instance (key : Nat) (op : Op) : Decidable (op.Covers key) := by
  cases op <;> exact inferInstanceAs (Decidable (_ ∧ _))

/-- What a call leaves for a page number it names. -/
def Op.entry (key : Nat) : Op → Option (Nat × Nat)
  | .map va pa _ attr => some (pa / 4096 + (key - va / 4096), attr)
  | .unmap _ _ => none

def Op.apply (M : PageMap) (op : Op) : PageMap := fun key =>
  if op.Covers key then op.entry key else M key

def Op.InRange : Op → Prop
  | .map va pa size attr => va + size ≤ 2 ^ 48 ∧ pa + size ≤ 2 ^ 48 ∧ attr < 4096
  | .unmap va size => va + size ≤ 2 ^ 48

instance (op : Op) : Decidable op.InRange := by
  cases op <;> unfold Op.InRange <;> infer_instance

/-- What the hardware finds for `ipa` when the tables stand for `M`. -/
def PageMap.walk (M : PageMap) (ipa : Nat) : Option Translation :=
  (M (ipa / 4096)).map fun entry =>
    ⟨ptePa (entry.1 * 4096) ||| s2pteAf ||| entry.2 ||| pteV, entry.1 * 4096 + ipa % 4096⟩

theorem blankSupply (root : Nat) : Supply root (BlankPage root) (fun _ _ => True) where
  fresh := fun _ _ _ _ hBlank => hBlank
  keep := fun _ _ _ _ _ _ _ _ _ _ _ => trivial
  leaf := fun _ _ _ _ _ _ _ _ => trivial

def PageMap.Valid (M : PageMap) : Prop :=
  ∀ key frame attr, M key = some (frame, attr) → frame * 4096 < 2 ^ 48 ∧ attr < 4096

theorem Op.apply_valid {M : PageMap} (hValid : M.Valid) {op : Op} (hRange : op.InRange) :
    (op.apply M).Valid := by
  intro key frame attr hEntry
  rw [Op.apply] at hEntry
  split at hEntry
  · rename_i hCovers
    cases op with
    | map va pa size attr' =>
      obtain ⟨hVa, hPa, hAttr⟩ := hRange
      obtain ⟨hLow, hHigh⟩ := hCovers
      cases hEntry
      exact ⟨by omega, hAttr⟩
    | unmap va size => cases hEntry
  · exact hValid key frame attr hEntry

/-- The tree stores the descriptor of each entry of the map and no other. -/
structure Stores (root : Nat) (m : Mem) (node : Nat → Nat → Option Nat) (M : PageMap) : Prop where
  tree : Tree m root node
  valid : M.Valid
  leaf : ∀ key, leafDesc m node key = (M key).map fun entry => pageDesc (entry.1 * 4096) entry.2

theorem Stores.archWalk_eq {root : Nat} {m : Mem} {node : Nat → Nat → Option Nat} {M : PageMap}
    (h : Stores root m node M) {ipa : Nat} (hIpa : ipa < 2 ^ 48) : archWalk m root ipa = M.walk ipa := by
  rw [h.tree.archWalk_eq ipa hIpa, h.leaf, PageMap.walk]
  cases hEntry : M (ipa / 4096) with
  | none => rfl
  | some entry =>
    obtain ⟨frame, attr⟩ := entry
    obtain ⟨hFrame, hAttr⟩ := h.valid _ _ _ hEntry
    have hAligned : frame * 4096 % 4096 = 0 := Nat.mul_mod_left _ _
    simp only [Option.map_some, pageDesc, pageDesc_output _ attr hAttr hAligned hFrame]

theorem Op.exec_stores {root : Nat} {h h' : Host} {node : Nat → Nat → Option Nat} {M : PageMap} {op : Op}
    (hStores : Stores root h.mem node M) (hRange : op.InRange) (hExec : op.exec root h = .ok h')
    (hBlank : ∀ g ∈ h'.grants, BlankPage root g) : ∃ node', Stores root h'.mem node' (op.apply M) := by
  cases op with
  | map va pa size attr =>
    obtain ⟨hVa, hPa, hAttr⟩ := hRange
    obtain ⟨hVaAligned, hPaAligned, hSizeAligned, node', hTree, _, hLeaf, _⟩ :=
      pagemap_spec (blankSupply root) hStores.tree trivial (Nat.lt_trans hAttr (by decide)) hVa hExec hBlank
    refine ⟨node', hTree, Op.apply_valid hStores.valid ⟨hVa, hPa, hAttr⟩, fun key => ?_⟩
    rw [hLeaf key, Op.apply, hStores.leaf key, apply_ite (Option.map _)]
    congr 1
    have hFrame : pa + (key - va / 4096) * 4096 = (pa / 4096 + (key - va / 4096)) * 4096 := by omega
    rw [hFrame]
    rfl
  | unmap va size =>
    obtain ⟨hTree, hLeaf⟩ := pageunmap_spec hStores.tree hRange hExec
    refine ⟨node, hTree, Op.apply_valid hStores.valid hRange, fun key => ?_⟩
    rw [hLeaf key, Op.apply, hStores.leaf key, apply_ite (Option.map _)]
    rfl

theorem Op.exec_grants {root : Nat} {h h' : Host} {op : Op} (hExec : op.exec root h = .ok h') :
    ∀ g, g ∈ h.grants → g ∈ h'.grants := by
  cases op with
  | map va pa size attr =>
    rw [Op.exec, pagemap] at hExec
    split at hExec
    · cases hExec
    · exact pagemapLoop_grants hExec
  | unmap va size =>
    rw [Op.exec, pageunmap] at hExec
    split at hExec
    · cases hExec
    · rw [pageunmapLoop_grants hExec]
      exact fun g hg => hg

/-- The tables after a run of calls stand for the map after the same run. -/
theorem foldlM_stores {root : Nat} {h h' : Host} {ops : List Op} {node : Nat → Nat → Option Nat} {M : PageMap}
    (hStores : Stores root h.mem node M) (hRange : ∀ op ∈ ops, op.InRange)
    (hRun : ops.foldlM (Op.exec root) h = .ok h') (hBlank : ∀ g ∈ h'.grants, BlankPage root g) :
    ∃ node', Stores root h'.mem node' (ops.foldl Op.apply M) := by
  -- The relation speaks of blank grants as a premise, so that the ones of a later state suffice.
  refine foldlM_simulation (Op.exec root) Op.apply
    (fun s M => (∀ g ∈ s.grants, BlankPage root g) → ∃ node, Stores root s.mem node M)
    ops ?_ h M h' (fun _ => ⟨node, hStores⟩) hRun hBlank
  intro op hOp s M s' hRel hExec hBlank'
  obtain ⟨node₁, hStores₁⟩ := hRel fun g hg => hBlank' g (Op.exec_grants hExec g hg)
  exact Op.exec_stores hStores₁ (hRange op hOp) hExec hBlank'

theorem stores_empty {m : Mem} {root : Nat} (hZero : Zero m root 4096) (hAligned : root % 4096 = 0)
    (hPos : 0 < root) (hBound : root < 2 ^ 48) : ∃ node, Stores root m node (fun _ => none) := by
  refine ⟨_, tree_root hZero hAligned hPos hBound, ?_, ?_⟩
  · intro key frame attr hEntry
    cases hEntry
  · intro key
    have hNode : (if shape.depth = 0 ∧ key / shape.fanout = 0 then some root else none) = none :=
      if_neg fun h => absurd h.1 (by decide)
    rw [leafDesc, value, hNode]
    rfl

/-- Every run of `pagemap` and `pageunmap` from a zeroed root acts on translations as it does on the
abstract map, and its next call leaves every page outside its range alone. -/
theorem pageTables_refine {root : Nat} {h₀ h : Host} {ops : List Op} (hZero : Zero h₀.mem root 4096)
    (hAligned : root % 4096 = 0) (hPos : 0 < root) (hBound : root < 2 ^ 48)
    (hRange : ∀ op ∈ ops, op.InRange) (hRun : ops.foldlM (Op.exec root) h₀ = .ok h)
    (hBlank : ∀ g ∈ h.grants, BlankPage root g) :
    (∀ ipa, ipa < 2 ^ 48 → archWalk h.mem root ipa = (ops.foldl Op.apply fun _ => none).walk ipa) ∧
    ∀ (op : Op) (h' : Host), op.InRange → op.exec root h = .ok h' → (∀ g ∈ h'.grants, BlankPage root g) →
      ∀ ipa, ipa < 2 ^ 48 → ¬op.Covers (ipa / 4096) → archWalk h'.mem root ipa = archWalk h.mem root ipa := by
  obtain ⟨node₀, hStores₀⟩ := stores_empty hZero hAligned hPos hBound
  obtain ⟨node, hStores⟩ := foldlM_stores hStores₀ hRange hRun hBlank
  constructor
  · intro ipa hIpa
    exact hStores.archWalk_eq hIpa
  · intro op h' hOp hExec hBlank' ipa hIpa hOutside
    obtain ⟨node', hStores'⟩ := Op.exec_stores hStores hOp hExec hBlank'
    rw [hStores'.archWalk_eq hIpa, hStores.archWalk_eq hIpa, PageMap.walk, PageMap.walk, Op.apply,
      if_neg hOutside]

/-- Sixteen zeroed pages above the devices, the first of them taken as a root table. -/
def bootHost : Host := ⟨fun _ => 0, ⟨fun _ => 0, 16, 0x40000, 0⟩, []⟩

def rootHost : Host := { bootHost.allocPage.1 with grants := [] }

/-- Two pages across a 2 MB boundary, the first of them unmapped again. -/
def twoPages : List Op := [.map 0x1ff000 0x50000000 8192 (s2pteNormal ||| s2pteRw), .unmap 0x1ff000 4096]

theorem bootHost_free : bootHost.allocPage.2 = 0x40000000 ∧ bootHost.allocPage.2 ≠ minusOne := by decide

/-- From zeroed memory a successful call of `alloc_page` is all that is left to ask. -/
theorem rootHost_blank {va pa size attr : Nat} {h : Host} (hVa : va + size ≤ 2 ^ 48)
    (hAttr : attr < 4096) (hMap : pagemap rootHost 0x40000000 va pa size attr = .ok h)
    (hGranted : ∀ g ∈ h.grants, Granted g) : ∀ g ∈ h.grants, BlankPage 0x40000000 g := by
  have hLedger := zeroedLedger 0x40000000 bootHost.allocator (by decide)
  have hStart : OwnedZeroed bootHost.allocator [] bootHost (fun _ _ => none) :=
    ⟨owned_start bootHost ⟨by decide, by decide⟩, fun _ _ _ _ => rfl⟩
  have hRoot := hLedger.root bootHost hStart bootHost_free.2
  have hTree : Tree rootHost.mem 0x40000000 (hang (fun _ _ => none) 0 0 bootHost.allocPage.2) :=
    tree_root (fun _ _ => rfl) (by decide) (by decide) (by decide)
  have hOwned : OwnedZeroed bootHost.allocator [] rootHost (hang (fun _ _ => none) 0 0 bootHost.allocPage.2) :=
    ⟨⟨hRoot.pool, hRoot.basePfn, hRoot.totalPages, hRoot.grows, hRoot.tables, hRoot.taken, hRoot.nodup⟩,
      hRoot.zeroed⟩
  obtain ⟨_, _, _, _, _, _, _, hBlank, _⟩ :=
    pagemap_spec (hLedger.supply []) hTree hOwned (Nat.lt_trans hAttr (by decide)) hVa hMap hGranted
  intro g hg
  rcases hBlank g hg with hOld | hNew
  · cases hOld
  · exact hNew

theorem twoPages_returns : returns (twoPages.foldlM (Op.exec 0x40000000) rootHost)
    (fun h => h.grants.all fun g => g.page != minusOne) = true := by
  decide +kernel

theorem twoPages_blank {h : Host} (hRun : twoPages.foldlM (Op.exec 0x40000000) rootHost = .ok h) :
    ∀ g ∈ h.grants, BlankPage 0x40000000 g := by
  have hGranted : ∀ g ∈ h.grants, Granted g := by
    intro g hg
    have hAll := twoPages_returns
    rw [hRun] at hAll
    have hBool := List.all_eq_true.mp hAll g hg
    simpa [Granted] using hBool
  rw [twoPages, List.foldlM_cons] at hRun
  obtain ⟨h₁, hMap, hRest⟩ := bind_eq_ok.mp hRun
  rw [List.foldlM_cons] at hRest
  obtain ⟨h₂, hUnmap, hLast⟩ := bind_eq_ok.mp hRest
  cases hLast
  rw [Op.exec, pageunmap, if_neg (by decide)] at hUnmap
  rw [pageunmapLoop_grants hUnmap] at hGranted ⊢
  exact rootHost_blank (by decide) (by decide) hMap hGranted

theorem pageTables_refine_twoPages : ∃ h, twoPages.foldlM (Op.exec 0x40000000) rootHost = .ok h ∧
    ∀ ipa, ipa < 2 ^ 48 → archWalk h.mem 0x40000000 ipa = (twoPages.foldl Op.apply fun _ => none).walk ipa := by
  obtain ⟨h, hRun, _⟩ := exists_of_returns twoPages_returns
  have hRefine := pageTables_refine (fun _ _ => rfl) (by decide) (by decide) (by decide) (by decide) hRun
    (twoPages_blank hRun)
  exact ⟨h, hRun, hRefine.1⟩

end HyperPoc.Stage2
