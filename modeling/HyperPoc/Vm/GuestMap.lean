import HyperPoc.Stage2.Ownership
import HyperPoc.Vm.Layout
import HyperPoc.Vm.Sites

/-! # The guest's RAM as it is built

Each round of the three loops takes one page from the pool and maps it behind the pages mapped
before. The list `data` holds the frames in the order of their guest addresses.
-/
namespace HyperPoc.Stage2
open Library.Memory Library.RadixTable Library.Run
set_option autoImplicit false

def ramAttr : Nat := s2pteNormal ||| s2pteRw
def uartAttr : Nat := s2pteDevice ||| s2pteRw

/-- Page `first + i` is mapped to the frame `data[i]`, and no other page is mapped. -/
structure Built (I : List Nat → Host → (Nat → Nat → Option Nat) → Prop) (root first : Nat) (data : List Nat)
    (h : Host) (node : Nat → Nat → Option Nat) : Prop where
  tree : Tree h.mem root node
  inv : I data.reverse h node
  leaf : ∀ key, leafDesc h.mem node key =
    if first ≤ key then (data[key - first]?).map fun f => pageDesc f ramAttr else none

def ZeroSince (h₀ h : Host) : Prop := ∀ g ∈ h.grants, g ∈ h₀.grants ∨ Zero g.mem g.page 4096

def Since (Seen : Grant → Prop) (h₀ h : Host) : Prop := ∀ g ∈ h.grants, g ∈ h₀.grants ∨ Seen g

section
variable {Seen : Grant → Prop}

theorem Since.refl (h : Host) : Since Seen h h := fun _ hg => .inl hg

theorem Since.trans {h₀ h₁ h₂ : Host} (h : Since Seen h₀ h₁) (h' : Since Seen h₁ h₂) :
    Since Seen h₀ h₂ := by
  intro g hg
  obtain hOld | hSeen := h' g hg
  · exact h g hOld
  · exact .inr hSeen

theorem Since.alloc {h : Host} (hSeen : Seen ⟨h.mem, h.allocPage.2⟩) : Since Seen h h.allocPage.1 := by
  intro g hg
  cases hg with
  | head => exact .inr hSeen
  | tail _ hOld => exact .inl hOld

theorem Since.of_blank (hZero : ∀ g : Grant, Zero g.mem g.page 4096 → Seen g) {root : Nat} {h₀ h : Host}
    (hBlank : ∀ g ∈ h.grants, g ∈ h₀.grants ∨ BlankPage root g) : Since Seen h₀ h :=
  fun g hg => (hBlank g hg).imp_right fun hPage => hZero g hPage.zero

end

theorem pagemap_grants {pgt va pa size attr : Nat} {h h' : Host} (hMap : pagemap h pgt va pa size attr = .ok h') :
    ∀ g, g ∈ h.grants → g ∈ h'.grants := by
  rw [pagemap] at hMap
  split at hMap
  · cases hMap
  · exact pagemapLoop_grants hMap

theorem guestPage_grants {noMem : String} {content : Mem → Nat → Mem} {pgt ipa : Nat} {h h' : Host}
    (hPage : guestPage noMem content pgt ipa h = .ok h') :
    ⟨h.mem, h.allocPage.2⟩ ∈ h'.grants ∧ ∀ g, g ∈ h.grants → g ∈ h'.grants := by
  rw [guestPage] at hPage
  dsimp only at hPage
  split at hPage
  · cases hPage
  · have hGrants := pagemap_grants hPage
    exact ⟨hGrants _ List.mem_cons_self, fun g hg => hGrants g (List.mem_cons_of_mem _ hg)⟩

section
variable {take : Take} {a₀ : PageAllocator} {Ok Fr Seen : Grant → Prop}
  {Puts : Nat → Mem → Nat → Mem → Prop}
  {I : List Nat → Host → (Nat → Nat → Option Nat) → Prop} {root first : Nat}

theorem guestPageWith_spec (hAccount : Account root a₀ Ok Fr Seen Puts I) (hTable : take.Gives .table Ok)
    {site : Site} (hSite : take.Gives site Fr) (hBound : (a₀.basePfn + a₀.totalPages) * 4096 ≤ 2 ^ 48)
    {content : Mem → Nat → Mem} {data : List Nat} {ipa : Nat} {h h' : Host} {node : Nat → Nat → Option Nat}
    (hBuilt : Built I root first data h node) (hIpa : ipa = (first + data.length) * 4096) (hTop : ipa + 4096 ≤ 2 ^ 48)
    (hContent : ∀ m page, page + 4096 ≤ 2 ^ 48 → Puts data.length m page (content m page))
    (hPage : guestPageWith take site content root ipa h = .ok h') :
    Since Seen h h' ∧ ∃ frame node', Built I root first (data ++ [frame]) h' node' ∧
      layPage site (first + data.length) (h.allocator, node) = .ok (frame, (h'.allocator, node')) := by
  obtain ⟨r, hTake, hRest⟩ := bind_eq_ok.mp hPage
  obtain ⟨rfl, _, hGrant⟩ := hSite h r hTake
  have hMap : pagemapWith take { h.allocPage.1 with mem := content h.mem h.allocPage.2 } root ipa h.allocPage.2 pageSize
    ramAttr = .ok h' := hRest
  have hNe : h.allocPage.2 ≠ minusOne := hAccount.granted _ hGrant
  obtain ⟨_, hFresh, hTaken⟩ := (hAccount.owned _ _ _ hBuilt.inv).allocPage_new hNe
  obtain ⟨hAligned, hPageTop⟩ := hTaken.bounds hBound
  have hPuts := hContent h.mem h.allocPage.2 hPageTop
  obtain ⟨hSeen, hInv⟩ := hAccount.frame _ _ _ _ hBuilt.inv hGrant (data.length_reverse ▸ hPuts)
  obtain ⟨hTree, hLeaf⟩ := hBuilt.tree.of_sameOutside hFresh hAligned (hAccount.puts _ _ _ _ hPuts)
  obtain ⟨_, _, _, node', hTree', hInv', hLeaf', hBlank, hTables⟩ :=
    pagemapWith_spec (hAccount.supply _) hTable hTree hInv (by decide) hTop hMap
  have hSince := (Since.alloc hSeen).trans (.of_blank hAccount.zero hBlank)
  have hStart : ipa / 4096 = first + data.length := by omega
  refine ⟨hSince, h.allocPage.2, node', ⟨hTree', ?_, ?_⟩, ?_⟩
  · rw [List.reverse_append]
    exact hInv'
  · intro key
    rw [hLeaf' key]
    have hStop : (ipa + 4096) / 4096 = first + data.length + 1 := by omega
    rw [hStart, hStop]
    change (if _ then _ else leafDesc (content h.mem h.allocPage.2) node key) = _
    rw [hLeaf key, hBuilt.leaf key]
    by_cases hKey : key = first + data.length
    · have hIndex : key - first = data.length := by omega
      have hOffset : h.allocPage.2 + (key - (first + data.length)) * 4096 = h.allocPage.2 := by
        rw [hKey, Nat.sub_self, Nat.zero_mul, Nat.add_zero]
      rw [if_pos (by omega), if_pos (by omega), hOffset, hIndex, List.getElem?_concat_length]
      rfl
    · rw [if_neg (by omega)]
      split
      · by_cases hLt : key - first < data.length
        · rw [List.getElem?_append_left hLt]
        · rw [List.getElem?_eq_none (by omega), List.getElem?_eq_none (by simp; omega)]
      · rfl
  · rw [hStart] at hTables
    exact layPage_eq (r := (h.allocator, node)) hNe (tablesFor_one hTables)

theorem pageLoop_grants {body : Host → Nat → Outcome Host}
    (hBody : ∀ h p h', body h p = .ok h' → ∀ g, g ∈ h.grants → g ∈ h'.grants)
    {limit n p p' : Nat} {h h' : Host} (hLoop : pageLoop body limit n h p = .ok (h', p')) :
    ∀ g, g ∈ h.grants → g ∈ h'.grants := by
  induction n generalizing h p with
  | zero => cases hLoop
  | succ n ih =>
    rw [pageLoop] at hLoop
    split at hLoop
    · obtain ⟨h₁, hRound, hRest⟩ := bind_eq_ok.mp hLoop
      intro g hg
      exact ih hRest g (hBody _ _ _ hRound g hg)
    · cases hLoop
      exact fun g hg => hg

/-- A loop extends the mapped range up to its limit, rounded to whole pages. -/
theorem pageLoopWith_spec (hAccount : Account root a₀ Ok Fr Seen Puts I) (hTable : take.Gives .table Ok) {site : Site}
    (hSite : take.Gives site Fr) (hBound : (a₀.basePfn + a₀.totalPages) * 4096 ≤ 2 ^ 48)
    (content : Nat → Mem → Nat → Mem) {limit n p p' : Nat} {data : List Nat} {h h' : Host}
    {node : Nat → Nat → Option Nat} {sites : Nat → Site} {r : Tables} (hBuilt : Built I root first data h node)
    (hLay : layPages sites first data.length r = .ok (data, (h.allocator, node))) (hCursor : p = data.length * 4096)
    (hTop : first * 4096 + pageRound limit ≤ 2 ^ 48)
    (hSites : ∀ j, p ≤ j * 4096 → j * 4096 < limit → sites j = site)
    (hContent : ∀ j, p ≤ j * 4096 → j * 4096 < limit → ∀ m page, page + 4096 ≤ 2 ^ 48 →
      Puts j m page (content (j * 4096) m page))
    (hLoop : pageLoop (fun h p => guestPageWith take site (content p) root (u64 (first * 4096 + p)) h) limit n h p =
      .ok (h', p')) :
    p' = max p (pageRound limit) ∧ Since Seen h h' ∧
      ∃ data' node', Built I root first data' h' node' ∧ p' = data'.length * 4096 ∧
        layPages sites first data'.length r = .ok (data', (h'.allocator, node')) := by
  -- the pages from `first` up to the cursor are mapped, the `i`-th of them to `data[i]`
  induction n generalizing h p data node with
  | zero => cases hLoop
  | succ n ih =>
    rw [pageLoop] at hLoop
    split at hLoop
    · rename_i hLt
      have hRound : p + 4096 ≤ pageRound limit := by
        rw [pageRound]
        omega
      have hIpa : first * 4096 + p = (first + data.length) * 4096 := by omega
      have hPageTop : first * 4096 + p + 4096 ≤ 2 ^ 48 := by
        rw [Nat.add_assoc]
        exact (Nat.add_le_add_left hRound _).trans hTop
      obtain ⟨h₁, hPage, hRest⟩ := bind_eq_ok.mp hLoop
      rw [u64_of_lt (by omega)] at hPage
      rw [pageSize, u64_of_lt (by omega)] at hRest
      have hHere := hContent data.length (by omega) (by omega)
      rw [← hCursor] at hHere
      obtain ⟨hSince₁, frame, node₁, hBuilt₁, hLayPage⟩ :=
        guestPageWith_spec hAccount hTable hSite hBound hBuilt hIpa hPageTop hHere hPage
      have hLength : (data ++ [frame]).length = data.length + 1 := by
        rw [List.length_append, List.length_singleton]
      rw [← hSites data.length (by omega) (by omega)] at hLayPage
      have hLay₁ := layPages_succ hLay hLayPage
      rw [← hLength] at hLay₁
      obtain ⟨hEnd, hSince, hData⟩ := ih hBuilt₁ hLay₁ (by omega) (fun j hj => hSites j (by omega))
        (fun j hj => hContent j (by omega)) hRest
      exact ⟨by omega, hSince₁.trans hSince, hData⟩
    · cases hLoop
      refine ⟨?_, .refl _, data, node, hBuilt, hCursor, hLay⟩
      rw [pageRound]
      omega

theorem memcpy_page (m : Mem) {page n : Nat} (src : Nat) (hTop : page + 4096 ≤ 2 ^ 48) (hn : n ≤ 4096) :
    SameOutside m (memcpy m page src n) page 4096 :=
  (memcpy_sameOutside m page src n (by omega)).mono hn

theorem memset_page (m : Mem) {page : Nat} (hTop : page + 4096 ≤ 2 ^ 48) :
    SameOutside m (memset m page 0 pageSize) page 4096 := by
  rw [memset_eq m page pageSize 0 (by rw [pageSize]; omega)]
  exact fill_sameOutside m page 4096 0

/-- What `create_vm` puts into the page of the guest's RAM with number `j`. -/
def frameContent (img : Guest) (j : Nat) (m : Mem) (page : Nat) : Mem :=
  if j * 4096 < guestFilesz img then fileContent img (j * 4096) m page
  else if j * 4096 < img.size then bssContent m page
  else m

/-- Behind the last page nothing is put. -/
theorem frameContent_ramBytes (cfg : VmConfig) (img : Guest) (m : Mem) (page : Nat) :
    frameContent img (ramBytes cfg img / 4096) m page = m := by
  have hEnd : max (guestFilesz img) (max img.size cfg.ramSize) ≤ ramBytes cfg img / 4096 * 4096 := by
    rw [ramBytes, pageRound]
    omega
  rw [frameContent, if_neg (by omega), if_neg (by omega)]

theorem frameContent_sameOutside (img : Guest) (j : Nat) (m : Mem) {page : Nat} (hTop : page + 4096 ≤ 2 ^ 48) :
    SameOutside m (frameContent img j m page) page 4096 := by
  rw [frameContent]
  split
  · exact memcpy_page m _ hTop (by rw [pageSize]; split <;> omega)
  · split
    · exact memset_page m hTop
    · exact fun _ _ => rfl

/-- The loops map the guest's RAM and nothing else, and the last call maps the UART page. -/
theorem mapGuestWith_spec (hAccount : Account root a₀ Ok Fr Seen Puts I) (hTests : take.Tests Ok Fr)
    (hBound : (a₀.basePfn + a₀.totalPages) * 4096 ≤ 2 ^ 48) {cfg : VmConfig} {img : Guest} {h h' : Host}
    {node : Nat → Nat → Option Nat} (hBuilt : Built I root first [] h node) (hEntry : cfg.entrypoint = first * 4096)
    (hTop : cfg.entrypoint + ramBytes cfg img ≤ 2 ^ 48)
    (hContent : ∀ j m page, page + 4096 ≤ 2 ^ 48 → Puts j m page (frameContent img j m page))
    (hMap : mapGuestWith take cfg img root h = .ok h') :
    Since Seen h h' ∧ ∃ (data : List Nat) (node' : Nat → Nat → Option Nat),
      data.length * 4096 = ramBytes cfg img ∧
      Tree h'.mem root node' ∧ I data.reverse h' node' ∧
      (∀ key, leafDesc h'.mem node' key =
        if key = uartBase / 4096 then some (pageDesc uartBase uartAttr)
        else if first ≤ key then (data[key - first]?).map fun f => pageDesc f ramAttr else none) ∧
      ∃ r, layPages (ramSite img) first data.length (h.allocator, node) = .ok (data, r) ∧
        tablesAt (uartBase / 4096) r = .ok (h'.allocator, node') := by
  rw [ramBytes, pageRound_max, pageRound_max, hEntry] at hTop
  rw [ramBytes, pageRound_max, pageRound_max]
  obtain ⟨⟨h₁, p₁⟩, hFile, hRest⟩ := bind_eq_ok.mp hMap
  obtain ⟨⟨h₂, p₂⟩, hBss, hRest⟩ := bind_eq_ok.mp hRest
  obtain ⟨⟨h₃, p₃⟩, hRam, hUart⟩ := bind_eq_ok.mp hRest
  dsimp only at hBss hRam hUart
  rw [hEntry] at hFile hBss hRam
  obtain ⟨hEnd₁, hSince₁, data₁, node₁, hBuilt₁, hCursor₁, hLay₁⟩ :=
    pageLoopWith_spec hAccount hTests.table hTests.file
      hBound (fileContent img) hBuilt rfl rfl ((Nat.add_le_add_left (Nat.le_max_left _ _) _).trans hTop)
      (fun j _ => ramSite_file)
      (by
        intro j _ hj m page hPage
        have hPuts := hContent j m page hPage
        rwa [frameContent, if_pos hj] at hPuts) hFile
  have hFileEnd : guestFilesz img ≤ p₁ := by
    rw [hEnd₁, pageRound]
    omega
  obtain ⟨hEnd₂, hSince₂, data₂, node₂, hBuilt₂, hCursor₂, hLay₂⟩ :=
    pageLoopWith_spec hAccount hTests.table hTests.bss
      hBound (fun _ => bssContent) hBuilt₁ hLay₁ hCursor₁
      ((Nat.add_le_add_left ((Nat.le_max_left _ _).trans (Nat.le_max_right _ _)) _).trans hTop)
      (fun j hFrom => ramSite_bss (hFileEnd.trans hFrom))
      (by
        intro j hFrom hj m page hPage
        have hPuts := hContent j m page hPage
        rwa [frameContent, if_neg (by omega), if_pos hj] at hPuts) hBss
  have hBssEnd : p₁ ≤ p₂ ∧ img.size ≤ p₂ := by
    rw [hEnd₂, pageRound]
    omega
  obtain ⟨hEnd₃, hSince₃, data₃, node₃, hBuilt₃, hCursor₃, hLay₃⟩ :=
    pageLoopWith_spec hAccount hTests.table hTests.ram
      hBound (fun _ m _ => m) hBuilt₂ hLay₂ hCursor₂
      ((Nat.add_le_add_left ((Nat.le_max_right _ _).trans (Nat.le_max_right _ _)) _).trans hTop)
      (fun j hFrom _ => ramSite_ram (by omega) (hBssEnd.2.trans hFrom))
      (by
        intro j hFrom _ m page hPage
        have hPuts := hContent j m page hPage
        rwa [frameContent, if_neg (by omega), if_neg (by omega)] at hPuts) hRam
  obtain ⟨_, _, _, node', hTree, hInv, hLeaf, hBlank, hTables⟩ := pagemapWith_spec (hAccount.supply _) hTests.table
    hBuilt₃.tree hBuilt₃.inv (by decide) (by decide) hUart
  refine ⟨((hSince₁.trans hSince₂).trans hSince₃).trans (.of_blank hAccount.zero hBlank), data₃, node', ?_,
    hTree, hInv, ?_, _, hLay₃, tablesAt_of_some (tablesFor_one hTables)⟩
  · rw [← hCursor₃, hEnd₃, hEnd₂, hEnd₁, List.length_nil, Nat.zero_mul, Nat.zero_max, Nat.max_assoc]
  · intro key
    rw [hLeaf key, hBuilt₃.leaf key]
    by_cases hKey : key = uartBase / 4096
    · rw [if_pos (by rw [hKey]; decide), if_pos hKey, hKey, Nat.sub_self, Nat.zero_mul, Nat.add_zero]
      rfl
    · have hNot : ¬(uartBase / 4096 ≤ key ∧ key < (uartBase + pageSize) / 4096) := by
        rw [uartBase, pageSize] at *
        omega
      rw [if_neg hNot, if_neg hKey]

end

section
variable {cfg : VmConfig} {img : Guest} {pgt : Nat}

/-- `create_vm` from the loop over the rest of the RAM on. -/
theorem mapRam_grants {r : Host × Nat} {h' : Host} (hMap : (do
      let (h, _) ← pageLoop (ramPage pgt cfg.entrypoint) cfg.ramSize (2 ^ 52 + 1) r.1 r.2
      pagemap h pgt uartBase uartBase pageSize (s2pteDevice ||| s2pteRw)) = .ok h') :
    ∀ g, g ∈ r.1.grants → g ∈ h'.grants := by
  obtain ⟨r₁, hRam, hUart⟩ := bind_eq_ok.mp hMap
  intro g hg
  exact pagemap_grants hUart g (pageLoop_grants (fun _ _ _ hp => (guestPage_grants hp).2) hRam g hg)

theorem mapBss_grants {r : Host × Nat} {h' : Host} (hMap : (do
      let (h, p) ← pageLoop (bssPage pgt cfg.entrypoint) img.size (2 ^ 52 + 1) r.1 r.2
      let (h, _) ← pageLoop (ramPage pgt cfg.entrypoint) cfg.ramSize (2 ^ 52 + 1) h p
      pagemap h pgt uartBase uartBase pageSize (s2pteDevice ||| s2pteRw)) = .ok h') :
    ∀ g, g ∈ r.1.grants → g ∈ h'.grants := by
  obtain ⟨r₁, hBss, hRest⟩ := bind_eq_ok.mp hMap
  intro g hg
  exact mapRam_grants hRest g (pageLoop_grants (fun _ _ _ hp => (guestPage_grants hp).2) hBss g hg)

theorem mapGuest_grants {h h' : Host} (hMap : mapGuest cfg img pgt h = .ok h') :
    ∀ g, g ∈ h.grants → g ∈ h'.grants := by
  obtain ⟨r₁, hFile, hRest⟩ := bind_eq_ok.mp hMap
  intro g hg
  exact mapBss_grants hRest g (pageLoop_grants (fun _ _ _ hp => (guestPage_grants hp).2) hFile g hg)

end

section
variable {C : Site → Grant → Prop} [∀ site g, Decidable (C site g)] {Ok : Grant → Prop}

theorem guestPageWith_unless (hC : ∀ site g, Ok g → C site g) {site : Site} (hSite : site ≠ .spis)
    (content : Mem → Nat → Mem) (pgt ipa : Nat) (h : Host) :
    UnlessRefused Ok Host.grants (guestPage site.noMem content pgt ipa h)
      (guestPageWith (takeIf C) site content pgt ipa h) := by
  rw [← guestPageWith_takePage hSite, guestPageWith, guestPageWith]
  refine unlessRefused_bind (takeIf_unless hC site h) ?_ ?_
  · intro r
    dsimp only
    rw [pagemapWith_takePage]
    exact pagemapWith_unless hC _ _ _ _ _ _
  · intro r h' hMap g hg
    dsimp only at hMap
    rw [pagemapWith_takePage] at hMap
    have hKept := pagemap_grants hMap
    exact hKept g hg

theorem pageLoop_unless {body body' : Host → Nat → Outcome Host}
    (hBody : ∀ h p, UnlessRefused Ok Host.grants (body h p) (body' h p))
    (hGrants : ∀ h p h', body h p = .ok h' → ∀ g, g ∈ h.grants → g ∈ h'.grants) (limit n : Nat) (h : Host)
    (p : Nat) :
    UnlessRefused Ok (fun r => r.1.grants) (pageLoop body limit n h p) (pageLoop body' limit n h p) := by
  induction n generalizing h p with
  | zero => exact .inl rfl
  | succ n ih =>
    rw [pageLoop, pageLoop]
    split
    · apply unlessRefused_bind (hBody h p) (fun h₁ => ih h₁ _)
      intro h₁ r hRest
      exact pageLoop_grants hGrants hRest
    · exact .inl rfl

theorem mapGuestWith_unless (hC : ∀ site g, Ok g → C site g) (cfg : VmConfig) (img : Guest) (pgt : Nat) (h : Host) :
    UnlessRefused Ok Host.grants (mapGuest cfg img pgt h) (mapGuestWith (takeIf C) cfg img pgt h) := by
  have hLoop : ∀ (site : Site) (content : Nat → Mem → Nat → Mem) (limit n : Nat) (h : Host) (p : Nat),
      site ≠ .spis →
      UnlessRefused Ok (fun r => r.1.grants)
        (pageLoop (fun h p => guestPage site.noMem (content p) pgt (u64 (cfg.entrypoint + p)) h) limit n h p)
        (pageLoop (fun h p => guestPageWith (takeIf C) site (content p) pgt (u64 (cfg.entrypoint + p)) h)
          limit n h p) :=
    fun site content limit n h p hSite => pageLoop_unless (fun h p => guestPageWith_unless hC hSite _ _ _ h)
      (fun _ _ _ hp => (guestPage_grants hp).2) limit n h p
  refine unlessRefused_bind (hLoop .file (fileContent img) _ _ _ _ (by decide)) (fun r₁ => ?_) fun r h' =>
    mapBss_grants
  refine unlessRefused_bind (hLoop .bss (fun _ => bssContent) _ _ _ _ (by decide)) (fun r₂ => ?_)
    fun r h' => mapRam_grants
  exact unlessRefused_bind (hLoop .ram (fun _ m _ => m) _ _ _ _ (by decide))
    (fun r => pagemapWith_unless hC _ _ _ _ _ _) fun r h' => pagemap_grants

end

end HyperPoc.Stage2
