import HyperPoc.Stage2.Walk

/-! # Mapping and unmapping ranges

`pagemap` stores one descriptor for each page of its range and `pageunmap` clears one; all other
page numbers keep what is stored for them.
-/
namespace HyperPoc.Stage2
open Library.Memory Library.RadixTable Library.Run
set_option autoImplicit false

def pageDesc (pa attr : Nat) : Nat := ptePa pa ||| s2pteAf ||| attr ||| pteV

theorem pageDesc_lt (pa attr : Nat) (hAttr : attr < 2 ^ 64) : pageDesc pa attr < 2 ^ 64 := by
  have hPa : ptePa pa < 2 ^ 64 := by
    have hLt := outputAddress_lt pa
    rw [ptePa_eq]
    omega
  exact Nat.or_lt_two_pow (Nat.or_lt_two_pow (Nat.or_lt_two_pow hPa (by decide)) hAttr) (by decide)

theorem pageDesc_mod (pa attr : Nat) : pageDesc pa attr % 4 = 3 := or_pteV_mod _

theorem page_pageDesc (pa attr : Nat) : page (pageDesc pa attr) = some (pageDesc pa attr) :=
  if_pos (pageDesc_mod pa attr)

/-- Only the address bits below 2^48 get into a descriptor. -/
theorem pageDesc_congr {pa pa' : Nat} (attr : Nat) (h : pa % 2 ^ 48 = pa' % 2 ^ 48) :
    pageDesc pa attr = pageDesc pa' attr := by
  have hOut : outputAddress pa = outputAddress pa' := by
    rw [outputAddress, outputAddress]
    omega
  rw [pageDesc, pageDesc, ptePa_eq, ptePa_eq, hOut]

theorem pagemapLoop_grants {pgt attr n : Nat} {h h' : Host} {va pa : Nat}
    (hMap : pagemapLoop pgt attr n h va pa = .ok h') : ∀ g, g ∈ h.grants → g ∈ h'.grants := by
  induction n generalizing h va pa with
  | zero =>
    cases hMap
    exact fun g hg => hg
  | succ n ih =>
    obtain ⟨⟨h₁, pte⟩, hWalk, hRest⟩ := bind_eq_ok.mp hMap
    dsimp only at hRest
    split at hRest
    · cases hRest
    · intro g hg
      exact ih hRest g (pagewalkLoop_grants hWalk g hg)

section
variable {take : Take} {root : Nat} {Ok : Grant → Prop} {I : Host → (Nat → Nat → Option Nat) → Prop}

theorem mapStep (hSupply : Supply root Ok I) (hTake : take.Gives .table Ok) (pa : Nat) {va attr pte : Nat}
    {h h₁ : Host} {node : Nat → Nat → Option Nat} (hTree : Tree h.mem root node) (hInv : I h node)
    (hAttr : attr < 2 ^ 64) (hWalk : pagewalkWith take h root va true = .ok (h₁, pte)) :
    ∃ node', Tree (h₁.store64 pte (pageDesc pa attr)).mem root node' ∧
      I (h₁.store64 pte (pageDesc pa attr)) node' ∧
      (∀ key, leafDesc (h₁.store64 pte (pageDesc pa attr)).mem node' key =
        if key = pageKey va then some (pageDesc pa attr) else leafDesc h.mem node key) ∧
      (∀ g ∈ h₁.grants, g ∈ h.grants ∨ BlankPage root g) ∧
      addTables (pageKey va) 3 0 (h.allocator, node) = some (h₁.allocator, node') := by
  obtain ⟨node', hWalked, hTables⟩ := pagewalkWith_alloc hSupply hTake hTree hInv hWalk
  obtain ⟨t, ht, rfl⟩ := hWalked.entry
  obtain ⟨hTree', hLeaf⟩ := hWalked.tree.write (pageKey va) (pageDesc pa attr) ht
    (pageDesc_lt pa attr hAttr) (.inl (pageDesc_mod pa attr))
  refine ⟨node', hTree', hSupply.leaf h₁ node' (pageKey va) t _ hWalked.tree hWalked.inv ht, ?_, hWalked.blank,
    hTables⟩
  intro key
  rw [Host.store64, hLeaf key, hWalked.same key, page_pageDesc]

theorem pagemapLoopWith_spec (hSupply : Supply root Ok I) (hTake : take.Gives .table Ok) {va pa attr n : Nat}
    {h h' : Host} {node : Nat → Nat → Option Nat} (hTree : Tree h.mem root node) (hInv : I h node)
    (hAttr : attr < 2 ^ 64) (hVa : va + n * 4096 ≤ 2 ^ 48)
    (hMap : pagemapLoopWith take root attr n h va pa = .ok h') :
    ∃ node', Tree h'.mem root node' ∧ I h' node' ∧
      (∀ key, leafDesc h'.mem node' key =
        if va / 4096 ≤ key ∧ key < va / 4096 + n then some (pageDesc (pa + (key - va / 4096) * 4096) attr)
        else leafDesc h.mem node key) ∧
      (∀ g ∈ h'.grants, g ∈ h.grants ∨ BlankPage root g) ∧
      tablesFor (va / 4096) n (h.allocator, node) = some (h'.allocator, node') := by
  induction n generalizing h va pa node with
  | zero =>
    cases hMap
    refine ⟨node, hTree, hInv, fun key => ?_, fun g hg => .inl hg, rfl⟩
    rw [if_neg (by omega)]
  | succ n ih =>
    obtain ⟨⟨h₁, pte⟩, hWalk, hRest⟩ := bind_eq_ok.mp hMap
    dsimp only at hRest
    split at hRest
    · cases hRest
    · obtain ⟨node₁, hTree₁, hInv₁, hLeaf₁, hBlank₁, hTables₁⟩ :=
        mapStep hSupply hTake pa hTree hInv hAttr hWalk
      rw [pageSize, u64_of_lt (n := va + 4096) (by omega)] at hRest
      obtain ⟨node', hTree', hInv', hLeaf', hBlank', hTables'⟩ := ih hTree₁ hInv₁ (by omega) hRest
      have hTables : tablesFor (va / 4096) (n + 1) (h.allocator, node) = some (h'.allocator, node') := by
        rw [pageKey_of_lt (by omega)] at hTables₁
        rw [tablesFor, hTables₁, ← show (va + 4096) / 4096 = va / 4096 + 1 by omega]
        exact hTables'
      refine ⟨node', hTree', hInv', fun key => ?_, fun g hg => (hBlank' g hg).elim (hBlank₁ g) .inr, hTables⟩
      rw [hLeaf' key, hLeaf₁ key, pageKey_of_lt (by omega)]
      by_cases hKey : key = va / 4096
      · rw [if_neg (by omega), if_pos hKey, if_pos (by omega), hKey, Nat.sub_self, Nat.zero_mul, Nat.add_zero]
      · by_cases hIn : (va + 4096) / 4096 ≤ key ∧ key < (va + 4096) / 4096 + n
        · have hAddr : (u64 (pa + 4096) + (key - (va + 4096) / 4096) * 4096) % 2 ^ 48 =
              (pa + (key - va / 4096) * 4096) % 2 ^ 48 := by
            rw [u64]
            omega
          rw [if_pos hIn, if_pos (by omega), pageDesc_congr attr hAddr]
        · rw [if_neg hIn, if_neg hKey, if_neg (by omega)]

theorem pagemapWith_spec (hSupply : Supply root Ok I) (hTake : take.Gives .table Ok) {va pa size attr : Nat}
    {h h' : Host} {node : Nat → Nat → Option Nat} (hTree : Tree h.mem root node) (hInv : I h node)
    (hAttr : attr < 2 ^ 64) (hVa : va + size ≤ 2 ^ 48) (hMap : pagemapWith take h root va pa size attr = .ok h') :
    va % 4096 = 0 ∧ pa % 4096 = 0 ∧ size % 4096 = 0 ∧ ∃ node', Tree h'.mem root node' ∧ I h' node' ∧
      (∀ key, leafDesc h'.mem node' key =
        if va / 4096 ≤ key ∧ key < (va + size) / 4096 then
          some (pageDesc (pa + (key - va / 4096) * 4096) attr)
        else leafDesc h.mem node key) ∧
      (∀ g ∈ h'.grants, g ∈ h.grants ∨ BlankPage root g) ∧
      tablesFor (va / 4096) (size / 4096) (h.allocator, node) = some (h'.allocator, node') := by
  rw [pagemapWith, pageSize] at hMap
  split at hMap
  · cases hMap
  · have hEnd : (va + size) / 4096 = va / 4096 + size / 4096 := by omega
    refine ⟨by omega, by omega, by omega, ?_⟩
    rw [hEnd]
    exact pagemapLoopWith_spec hSupply hTake hTree hInv hAttr (by omega) hMap

end

/-- A stricter test of each page changes nothing, unless a page has been refused. -/
abbrev UnlessRefused {α : Type} (Ok : Grant → Prop) (grants : α → List Grant) :
    Outcome α → Outcome α → Prop :=
  Unless (fun e => ∃ site : Site, e = .panic site.noMem) (fun r => ∃ g ∈ grants r, ¬Ok g)

theorem unlessRefused_bind {α β : Type} {Ok : Grant → Prop} {grants : α → List Grant}
    {grants' : β → List Grant} {x y : Outcome α} {f g : α → Outcome β} (hx : UnlessRefused Ok grants x y)
    (hf : ∀ a, UnlessRefused Ok grants' (f a) (g a))
    (hGrants : ∀ a b, f a = .ok b → ∀ g, g ∈ grants a → g ∈ grants' b) :
    UnlessRefused Ok grants' (x >>= f) (y >>= g) :=
  hx.bind hf fun a b ⟨g, hg, hNot⟩ hRest => ⟨g, hGrants a b hRest g hg, hNot⟩

theorem unlessRefused_same {α β : Type} {Ok : Grant → Prop} {grants : β → List Grant} (x : Outcome α)
    {f g : α → Outcome β} (hf : ∀ a, UnlessRefused Ok grants (f a) (g a)) :
    UnlessRefused Ok grants (x >>= f) (x >>= g) := by
  have hx : UnlessRefused Ok (fun _ => []) x x := .inl rfl
  exact unlessRefused_bind hx hf fun _ _ _ _ hg => by cases hg

section
variable {C : Site → Grant → Prop} [∀ site g, Decidable (C site g)] {Ok : Grant → Prop}

theorem takeIf_unless (hC : ∀ site g, Ok g → C site g) (site : Site) (h : Host) :
    UnlessRefused Ok (fun r => r.1.grants) (takePage site h) (takeIf C site h) := by
  rw [takeIf]
  split
  · exact .inl rfl
  · rename_i hNot
    refine .inr ⟨⟨_, rfl, site, rfl⟩, fun r hr =>
      ⟨⟨h.mem, h.allocPage.2⟩, ?_, fun hOk => hNot (hC site _ hOk)⟩⟩
    rw [takePage] at hr
    split at hr
    · cases hr
    · cases hr
      exact List.mem_cons_self

theorem pagewalkLoopWith_unless (hC : ∀ site g, Ok g → C site g) (va : Nat) (needAlloc : Bool) (n level : Nat)
    (h : Host) (pgt : Nat) : UnlessRefused Ok (fun r => r.1.grants) (pagewalkLoop va needAlloc n level h pgt)
      (pagewalkLoopWith (takeIf C) va needAlloc n level h pgt) := by
  rw [← pagewalkLoopWith_takePage]
  induction n generalizing level h pgt with
  | zero => exact .inl rfl
  | succ n ih =>
    rw [pagewalkLoopWith, pagewalkLoopWith]
    dsimp only
    split
    · exact ih _ _ _
    · split
      · apply unlessRefused_bind (takeIf_unless hC .table h) (fun r => ih _ _ _)
        intro r r' hRest g hg
        rw [pagewalkLoopWith_takePage] at hRest
        exact pagewalkLoop_grants hRest g hg
      · exact .inl rfl

theorem pagemapLoopWith_unless (hC : ∀ site g, Ok g → C site g) (pgt attr n : Nat) (h : Host) (va pa : Nat) :
    UnlessRefused Ok Host.grants (pagemapLoop pgt attr n h va pa) (pagemapLoopWith (takeIf C) pgt attr n h va pa) := by
  induction n generalizing h va pa with
  | zero => exact .inl rfl
  | succ n ih =>
    rw [pagemapLoop, pagemapLoopWith]
    refine unlessRefused_bind (pagewalkLoopWith_unless hC va true 3 0 h pgt) ?_ ?_
    · intro r
      dsimp only
      split
      · exact .inl rfl
      · exact ih _ _ _
    · intro r h' hRest g hg
      dsimp only at hRest
      split at hRest
      · cases hRest
      · exact pagemapLoop_grants hRest g hg

theorem pagemapWith_unless (hC : ∀ site g, Ok g → C site g) (h : Host) (pgt va pa size attr : Nat) :
    UnlessRefused Ok Host.grants (pagemap h pgt va pa size attr) (pagemapWith (takeIf C) h pgt va pa size attr) := by
  rw [pagemap, pagemapWith]
  split
  · exact .inl rfl
  · exact pagemapLoopWith_unless hC pgt attr _ h va pa

end

theorem pagemap_spec {root : Nat} {Ok : Grant → Prop} {I : Host → (Nat → Nat → Option Nat) → Prop}
    (hSupply : Supply root Ok I) {va pa size attr : Nat} {h h' : Host} {node : Nat → Nat → Option Nat}
    (hTree : Tree h.mem root node) (hInv : I h node) (hAttr : attr < 2 ^ 64) (hVa : va + size ≤ 2 ^ 48)
    (hMap : pagemap h root va pa size attr = .ok h') (hOk : ∀ g ∈ h'.grants, Ok g) :
    va % 4096 = 0 ∧ pa % 4096 = 0 ∧ size % 4096 = 0 ∧ ∃ node', Tree h'.mem root node' ∧ I h' node' ∧
      (∀ key, leafDesc h'.mem node' key =
        if va / 4096 ≤ key ∧ key < (va + size) / 4096 then
          some (pageDesc (pa + (key - va / 4096) * 4096) attr)
        else leafDesc h.mem node key) ∧
      (∀ g ∈ h'.grants, g ∈ h.grants ∨ BlankPage root g) ∧
      tablesFor (va / 4096) (size / 4096) (h.allocator, node) = some (h'.allocator, node') := by
  classical
  have hUnless := pagemapWith_unless (C := fun _ g => Ok g) (fun _ _ hOk => hOk) h root va pa size attr
  have hStrict := hUnless.eq_ok hMap fun ⟨g, hg, hNot⟩ => hNot (hOk g hg)
  exact pagemapWith_spec hSupply (takeIf_gives _ .table) hTree hInv hAttr hVa hStrict

theorem entryAddr_ne_zero {node : Nat → Nat → Option Nat} {key : Nat} (h : entryAddr node key ≠ 0) :
    ∃ t, node 3 (key / 512) = some t ∧ entryAddr node key = t + 8 * (key % 512) := by
  rw [entryAddr] at h ⊢
  cases hNode : node 3 (key / 512) with
  | none =>
    rw [hNode] at h
    exact False.elim (h rfl)
  | some t => exact ⟨t, rfl, rfl⟩

theorem pageunmapLoop_grants {pgt n va : Nat} {h h' : Host} (hUnmap : pageunmapLoop pgt n h va = .ok h') :
    h'.grants = h.grants := by
  induction n generalizing h va with
  | zero =>
    cases hUnmap
    rfl
  | succ n ih =>
    obtain ⟨⟨h₁, pte⟩, hWalk, hRest⟩ := bind_eq_ok.mp hUnmap
    have hSame : h₁ = h := pagewalkLoop_host hWalk
    subst hSame
    dsimp only at hRest
    split at hRest
    · cases hRest
    · split at hRest
      · cases hRest
      · have hGrants := ih hRest
        exact hGrants

theorem pageunmapLoop_spec {root va n : Nat} {h h' : Host} {node : Nat → Nat → Option Nat}
    (hTree : Tree h.mem root node) (hVa : va + n * 4096 ≤ 2 ^ 48)
    (hUnmap : pageunmapLoop root n h va = .ok h') :
    Tree h'.mem root node ∧
      ∀ key, leafDesc h'.mem node key =
        if va / 4096 ≤ key ∧ key < va / 4096 + n then none else leafDesc h.mem node key := by
  induction n generalizing h va with
  | zero =>
    cases hUnmap
    refine ⟨hTree, fun key => ?_⟩
    rw [if_neg (by omega)]
  | succ n ih =>
    obtain ⟨⟨h₁, pte⟩, hWalk, hRest⟩ := bind_eq_ok.mp hUnmap
    rw [hTree.pagewalk_read va] at hWalk
    cases hWalk
    dsimp only at hRest
    split at hRest
    · cases hRest
    · rename_i hEntry
      split at hRest
      · cases hRest
      · obtain ⟨t, ht, hPte⟩ := entryAddr_ne_zero hEntry
        rw [hPte, pageSize, u64_of_lt (by omega)] at hRest
        obtain ⟨hTree₁, hLeaf₁⟩ := hTree.write (pageKey va) 0 ht (by decide) (.inr rfl)
        obtain ⟨hTree', hLeaf'⟩ := ih hTree₁ (by omega) hRest
        refine ⟨hTree', fun key => ?_⟩
        rw [hLeaf' key]
        change (if _ then none else leafDesc (store h.mem (t + 8 * (pageKey va % 512)) 8 0) node key) = _
        rw [hLeaf₁ key, pageKey_of_lt (by omega)]
        by_cases hKey : key = va / 4096
        · rw [if_neg (by omega), if_pos hKey, if_pos (by omega)]
          rfl
        · by_cases hIn : (va + 4096) / 4096 ≤ key ∧ key < (va + 4096) / 4096 + n
          · rw [if_pos hIn, if_pos (by omega)]
          · rw [if_neg hIn, if_neg hKey, if_neg (by omega)]

theorem pageunmap_spec {root va size : Nat} {h h' : Host} {node : Nat → Nat → Option Nat}
    (hTree : Tree h.mem root node) (hVa : va + size ≤ 2 ^ 48)
    (hUnmap : pageunmap h root va size = .ok h') :
    Tree h'.mem root node ∧
      ∀ key, leafDesc h'.mem node key =
        if va / 4096 ≤ key ∧ key < (va + size) / 4096 then none else leafDesc h.mem node key := by
  rw [pageunmap, pageSize] at hUnmap
  split at hUnmap
  · cases hUnmap
  · have hEnd : (va + size) / 4096 = va / 4096 + size / 4096 := by omega
    rw [hEnd]
    exact pageunmapLoop_spec hTree (by omega) hUnmap

end HyperPoc.Stage2
