import HyperPoc.Library.LinkedList
import HyperPoc.Virtio.BlockDevice

/-! # Ends of descriptor chains

The successors of a queue link its descriptors into lists. The walk of `virtio_blk_process_desc`
returns exactly for a head whose list ends, and then it has visited every descriptor of the list
once; nothing in the loop makes sure that the list ends or that the head is a descriptor.
-/
namespace HyperPoc.Virtio
open Library.Memory Library.LinkedList
set_option autoImplicit false

/-- The reads of a walk along `l`, latest first. -/
def visits (q : VirtQueue) : List Nat → List Access
  | [] => []
  | i :: l => visits q l ++ visit q i

theorem mem_visits {q : VirtQueue} {l : List Nat} {a : Access} :
    a ∈ visits q l ↔ ∃ i ∈ l, a = ⟨false, q.descAddr i, 16⟩ := by
  induction l with
  | nil => simp [visits]
  | cons i l ih => simp [visits, visit, ih, or_comm]

theorem mem_links_lt {q : VirtQueue} {m : Mem} {head : Nat} {l : List Nat}
    (h : Links (q.successor m) (some head) l) (hHead : head < q.vringNum) : ∀ i ∈ l, i < q.vringNum := by
  suffices hAll : ∀ start l, Links (q.successor m) start l → (∀ i, start = some i → i < q.vringNum) →
      ∀ i ∈ l, i < q.vringNum by
    apply hAll _ l h
    rintro i ⟨⟩
    exact hHead
  intro start l h
  induction h with
  | nil => exact fun _ i hi => (List.not_mem_nil hi).elim
  | @cons j l _ ih =>
    intro hStart i hi
    obtain rfl | hTail := List.mem_cons.mp hi
    · exact hStart _ rfl
    · refine ih ?_ i hTail
      intro k hk
      exact Nat.lt_of_lt_of_le (successor_lt hk) (Nat.mod_le _ _)

theorem links_of_chainLoop {n idx k len : Nat} {s s' : Backend} {desc desc' : Nat → VirtqDesc}
    (h : chainLoop (s.vq.vringNum % 2 ^ 16) n s idx desc k = .ok (desc', len, s')) :
    ∃ l, Links (s.vq.successor s.host.mem) (some idx) l ∧ len = (k + l.length) % 2 ^ 16 ∧
      s' = s.after (visits s.vq l) := by
  induction n generalizing s idx desc k with
  | zero => cases h
  | succ n ih =>
    obtain ⟨_, ⟨hSucc, rfl, rfl⟩ | ⟨j, _, hSucc, hRest⟩⟩ := chainLoop_turn h
    · refine ⟨[idx], .cons ?_, rfl, rfl⟩
      rw [hSucc]
      exact .nil
    · obtain ⟨l, hLinks, hLen, hAfter⟩ := ih (s := s.after (visit s.vq idx)) hRest
      refine ⟨idx :: l, .cons ?_, ?_, hAfter.trans (s.after_after _ _)⟩
      · rw [hSucc]
        exact hLinks
      · rw [List.length_cons]
        omega

theorem chainLoop_of_links {n idx k : Nat} {s : Backend} {desc : Nat → VirtqDesc} {l : List Nat}
    (h : Links (s.vq.successor s.host.mem) (some idx) l) (hFuel : l.length ≤ n)
    (hFits : k + l.length ≤ s.vq.vringNum) (hCount : k + l.length < 2 ^ 16) :
    ∃ desc', chainLoop (s.vq.vringNum % 2 ^ 16) n s idx desc k =
      .ok (desc', k + l.length, s.after (visits s.vq l)) := by
  -- along the list: each turn stores one element, and `hFits` has room for the rest
  induction l generalizing n s idx desc k with
  | nil => cases h
  | cons i l ih =>
    cases h with
    | cons hRest =>
      rw [List.length_cons] at hFuel hFits hCount
      obtain ⟨n, rfl⟩ := Nat.exists_eq_add_of_le' (Nat.le_trans (Nat.le_add_left 1 _) hFuel)
      have hTurn : (k + 1) % 2 ^ 16 = k + 1 := Nat.mod_eq_of_lt (by omega)
      cases hSucc : s.vq.successor s.host.mem i with
      | none =>
        rw [hSucc] at hRest
        cases hRest
        rw [chainLoop_last n (by omega) hSucc, hTurn]
        exact ⟨_, rfl⟩
      | some j =>
        rw [hSucc] at hRest
        obtain ⟨desc', hLoop⟩ : ∃ desc', chainLoop (s.vq.vringNum % 2 ^ 16) n (s.after (visit s.vq i)) j
            (Function.update desc k (s.vq.descAt s.host.mem i)) (k + 1) =
              .ok (desc', k + 1 + l.length, (s.after (visit s.vq i)).after (visits s.vq l)) :=
          ih (s := s.after (visit s.vq i)) hRest (by omega) (by change k + 1 + l.length ≤ s.vq.vringNum; omega)
            (by omega)
        refine ⟨desc', ?_⟩
        rw [chainLoop_next n (by omega) hSucc, hTurn, List.length_cons, Nat.add_comm l.length, ← Nat.add_assoc]
        rw [Backend.after_after] at hLoop
        exact hLoop

/-- The loop ends after at most `vring_num` iterations, each of which stores within the array, and
reads only descriptors of the table. -/
def WalksInBounds (s : Backend) (head : Nat) : Prop :=
  ∃ desc len l, chainLoop (s.vq.vringNum % 2 ^ 16) (2 ^ 16) s head (fun _ => ⟨0, 0, 0, 0⟩) 0 =
      .ok (desc, len, s.after l) ∧
    1 ≤ len ∧ len ≤ s.vq.vringNum ∧ ∀ a ∈ l, ∃ i < s.vq.vringNum, a = ⟨false, s.vq.descAddr i, 16⟩

theorem VirtQueue.descAddr_inj {q : VirtQueue} {i j : Nat} (hi : i < 2 ^ 16) (hj : j < 2 ^ 16)
    (h : q.descAddr i = q.descAddr j) : i = j := by
  rw [descAddr, descAddr, u64, u64] at h
  omega

theorem Backend.after_inj {s : Backend} {l l' : List Access} (h : s.after l = s.after l') : l = l' :=
  List.append_cancel_right (congrArg Backend.accesses h)

theorem WalksInBounds.links {s : Backend} {head : Nat} (h : WalksInBounds s head) :
    ∃ l, Links (s.vq.successor s.host.mem) (some head) l ∧
      ∀ a ∈ visits s.vq l, ∃ i < s.vq.vringNum, a = ⟨false, s.vq.descAddr i, 16⟩ := by
  obtain ⟨desc, len, reads, hLoop, _, _, hReads⟩ := h
  obtain ⟨l, hLinks, _, hAfter⟩ := links_of_chainLoop hLoop
  obtain rfl := Backend.after_inj hAfter
  exact ⟨l, hLinks, hReads⟩

theorem WalksInBounds.head_lt {s : Backend} {head : Nat} (h : WalksInBounds s head) (hMax : s.vq.vringNum ≤ 64)
    (hHead : head < 2 ^ 16) : head < s.vq.vringNum := by
  obtain ⟨l, hLinks, hReads⟩ := h.links
  obtain ⟨i, hi, hEq⟩ := hReads _ (mem_visits.mpr ⟨head, hLinks.head_mem, rfl⟩)
  obtain rfl := VirtQueue.descAddr_inj hHead (by omega) (congrArg Access.addr hEq)
  exact hi

/-- The walk stays in bounds exactly for a head within the table whose chain ends. -/
theorem walksInBounds_iff {s : Backend} {head : Nat} (hMax : s.vq.vringNum ≤ 64)
    (hHead : head < 2 ^ 16) :
    WalksInBounds s head ↔ head < s.vq.vringNum ∧ ∃ l, Links (s.vq.successor s.host.mem) (some head) l := by
  constructor
  · intro hWalks
    obtain ⟨l, hLinks, _⟩ := hWalks.links
    exact ⟨hWalks.head_lt hMax hHead, l, hLinks⟩
  · rintro ⟨hLt, visited, hLinks⟩
    have hIn := mem_links_lt hLinks hLt
    have hShort := hLinks.length_le hIn
    obtain ⟨desc, hLoop⟩ : ∃ desc, chainLoop (s.vq.vringNum % 2 ^ 16)
        (2 ^ 16) s head (fun _ => ⟨0, 0, 0, 0⟩) 0 =
        .ok (desc, 0 + visited.length, s.after (visits s.vq visited)) :=
      chainLoop_of_links hLinks (by omega) (by omega) (by omega)
    refine ⟨desc, _, _, hLoop, ?_, by omega, ?_⟩
    · cases hLinks
      rw [List.length_cons]
      omega
    · intro a ha
      obtain ⟨i, hi, rfl⟩ := mem_visits.mp ha
      exact ⟨i, hIn i hi, rfl⟩

theorem ThreeChain.links {q : VirtQueue} {m : Mem} {head second third : Nat}
    (h : ThreeChain q m head second third) : Links (q.successor m) (some head) [head, second, third] := by
  refine .cons ?_
  rw [h.first]
  refine .cons ?_
  rw [h.middle]
  refine .cons ?_
  rw [h.last]
  exact .nil

/-- The chain 0, 1, 2 of the small queue. -/
theorem walksInBounds_small : WalksInBounds (smallBackend fun _ => 0) 0 :=
  (walksInBounds_iff (s := smallBackend fun _ => 0) (by change 8 ≤ 64; decide)
    (by decide)).mpr ⟨by change 0 < 8; decide, _, smallBackend_chain.links⟩

theorem chainLoop_self {n idx k : Nat} {s : Backend} {desc : Nat → VirtqDesc}
    (hSelf : s.vq.successor s.host.mem idx = some idx) (hFew : s.vq.vringNum < 2 ^ 16) (hk : k ≤ s.vq.vringNum)
    (hFuel : s.vq.vringNum < k + n) :
    chainLoop (s.vq.vringNum % 2 ^ 16) n s idx desc k = .error .outOfBounds := by
  induction n generalizing s desc k with
  | zero => omega
  | succ n ih =>
    by_cases hFull : s.vq.vringNum ≤ k
    · rw [chainLoop_succ, if_pos hFull]
    · rw [chainLoop_next n (by omega) hSelf, Nat.mod_eq_of_lt (a := k + 1) (by omega)]
      exact ih (s := s.after (visit s.vq idx)) hSelf hFew (by change k + 1 ≤ s.vq.vringNum; omega)
        (by change s.vq.vringNum < k + 1 + n; omega)

def loopPage : Mem := store ringPage 14 2 0

def loopBackend : Backend :=
  { smallBackend fun _ => 0 with host := ⟨withPage (fun _ => 0) loopPage 0x40001000, bootHypervisor.host.allocator,
    []⟩ }

theorem loopBackend_self : loopBackend.vq.successor loopBackend.host.mem 0 = some 0 := by
  change smallQueue.successor (withPage (fun _ => 0) loopPage 0x40001000) 0 = some 0
  rw [VirtQueue.successor, smallQueue_desc _ loopPage 0 (by decide)]
  decide

/-- A copy of eight elements overflows at the ninth turn around descriptor 0, and head 9 is taken as
it is: a descriptor beyond the table of eight is read. -/
theorem chainWalk_escapes :
    chainLoop (loopBackend.vq.vringNum % 2 ^ 16) (2 ^ 16) loopBackend 0 (fun _ => ⟨0, 0, 0, 0⟩) 0 =
      .error .outOfBounds ∧
    ¬WalksInBounds loopBackend 0 ∧ ¬WalksInBounds (smallBackend fun _ => 0) 9 := by
  have hLoop : chainLoop (loopBackend.vq.vringNum % 2 ^ 16) (2 ^ 16) loopBackend 0 (fun _ => ⟨0, 0, 0, 0⟩) 0 =
      .error .outOfBounds := by
    apply chainLoop_self loopBackend_self (by change 8 < 2 ^ 16; decide) (Nat.zero_le _)
    change 8 < 0 + 2 ^ 16
    decide
  refine ⟨hLoop, ?_, ?_⟩
  · rintro ⟨desc, len, l, hOk, _⟩
    cases hLoop.symm.trans hOk
  · intro hWalks
    have hLt := hWalks.head_lt (by change 8 ≤ 64; decide) (by decide)
    change 9 < 8 at hLt
    omega

end HyperPoc.Virtio
