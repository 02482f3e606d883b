import HyperPoc.Virtio.Queue

/-! # Descriptor chains

The loop of `virtio_blk_process_desc` follows the in-range successors of a head. It changes nothing
but the history of accesses, and finds three descriptors exactly when the chain has three.
-/
namespace HyperPoc.Virtio
open Library.Memory Library.Run
set_option autoImplicit false

def VirtQueue.descAt (q : VirtQueue) (m : Mem) (i : Nat) : VirtqDesc := loadDesc m (q.descAddr i)

theorem loadDesc_eq {m m' : Mem} {a b : Nat} (h : ∀ k n, k + n ≤ 16 → load m' (b + k) n = load m (a + k) n) :
    loadDesc m' b = loadDesc m a := by
  have hAddr : load m' b 8 = load m a 8 := h 0 8 (by decide)
  rw [loadDesc, loadDesc, hAddr, h 8 4 (by decide), h 12 2 (by decide), h 14 2 (by decide)]

/-- The descriptor the chain goes on with, if it goes on. -/
def VirtQueue.successor (q : VirtQueue) (m : Mem) (i : Nat) : Option Nat :=
  if virtDescTestFlag (q.descAt m i) vringDescFNext ∧ (q.descAt m i).next < q.vringNum % 2 ^ 16 then
    some (q.descAt m i).next
  else none

inductive InChain (q : VirtQueue) (m : Mem) (head : Nat) : Nat → Prop
  | head : InChain q m head head
  | next {i j : Nat} (hi : InChain q m head i) (hNext : q.successor m i = some j) : InChain q m head j

theorem InChain.of_successor {q : VirtQueue} {m : Mem} {head j i : Nat} (hNext : q.successor m head = some j)
    (h : InChain q m j i) : InChain q m head i := by
  induction h with
  | head => exact .next .head hNext
  | next _ hSucc ih => exact .next ih hSucc

structure ThreeChain (q : VirtQueue) (m : Mem) (head second third : Nat) : Prop where
  first : q.successor m head = some second
  middle : q.successor m second = some third
  last : q.successor m third = none

def Backend.after (s : Backend) (l : List Access) : Backend := { s with accesses := l ++ s.accesses }

theorem Backend.record_eq (s : Backend) (write : Bool) (a n : Nat) :
    s.record write a n = s.after [⟨write, a, n⟩] := rfl

theorem Backend.after_after (s : Backend) (l l' : List Access) : (s.after l).after l' = s.after (l' ++ l) := by
  rw [after, after, after, List.append_assoc]

/-- The descriptor is copied, then looked at again for its successor. -/
def visit (q : VirtQueue) (i : Nat) : List Access :=
  [⟨false, q.descAddr i, 16⟩, ⟨false, q.descAddr i, 16⟩]

theorem successor_lt {q : VirtQueue} {m : Mem} {i j : Nat} (h : q.successor m i = some j) :
    j < q.vringNum % 2 ^ 16 := by
  rw [VirtQueue.successor] at h
  split at h
  · rename_i hNext
    cases h
    exact hNext.2
  · cases h

theorem nextDesc_eq (s : Backend) (i : Nat) : nextDesc s i (s.vq.vringNum % 2 ^ 16) =
    ((s.vq.successor s.host.mem i).getD (s.vq.vringNum % 2 ^ 16), s.after [⟨false, s.vq.descAddr i, 16⟩]) := by
  unfold nextDesc VirtQueue.successor VirtQueue.descAt Backend.fetchDesc
  dsimp only
  cases virtDescTestFlag (loadDesc s.host.mem (s.vq.descAddr i)) vringDescFNext with
  | false => rw [if_neg Bool.false_ne_true, if_neg (by simp)]; rfl
  | true =>
    simp only [if_true, true_and]
    split <;> rfl

theorem chainLoop_succ (n : Nat) (s : Backend) (idx : Nat) (desc : Nat → VirtqDesc) (k : Nat) :
    chainLoop (s.vq.vringNum % 2 ^ 16) (n + 1) s idx desc k =
      if s.vq.vringNum ≤ k then .error .outOfBounds
      else match s.vq.successor s.host.mem idx with
        | none => .ok (Function.update desc k (s.vq.descAt s.host.mem idx), (k + 1) % 2 ^ 16,
            s.after (visit s.vq idx))
        | some j => chainLoop (s.vq.vringNum % 2 ^ 16) n (s.after (visit s.vq idx)) j
            (Function.update desc k (s.vq.descAt s.host.mem idx)) ((k + 1) % 2 ^ 16) := by
  have hNext : nextDesc (s.after [⟨false, s.vq.descAddr idx, 16⟩]) idx (s.vq.vringNum % 2 ^ 16) =
      ((s.vq.successor s.host.mem idx).getD (s.vq.vringNum % 2 ^ 16), s.after (visit s.vq idx)) :=
    nextDesc_eq (s.after [⟨false, s.vq.descAddr idx, 16⟩]) idx
  rw [chainLoop]
  split
  · rfl
  · simp only [Backend.fetchDesc, Backend.record_eq, hNext]
    cases hSucc : s.vq.successor s.host.mem idx with
    | none => rw [Option.getD_none, if_pos rfl]; rfl
    | some j =>
      have hLt := successor_lt hSucc
      rw [Option.getD_some, if_neg (by omega)]
      rfl

def ReadsChain (q : VirtQueue) (m : Mem) (head : Nat) (l : List Access) : Prop :=
  ∀ a ∈ l, ∃ i, InChain q m head i ∧ a = ⟨false, q.descAddr i, 16⟩

theorem readsChain_visit (q : VirtQueue) (m : Mem) (head : Nat) : ReadsChain q m head (visit q head) := by
  intro a ha
  refine ⟨head, .head, ?_⟩
  simpa [visit] using ha

theorem ReadsChain.of_successor {q : VirtQueue} {m : Mem} {head j : Nat} {l : List Access}
    (h : ReadsChain q m j l) (hNext : q.successor m head = some j) : ReadsChain q m head (l ++ visit q head) := by
  intro a ha
  obtain ha | ha := List.mem_append.mp ha
  · obtain ⟨i, hi, hEq⟩ := h a ha
    exact ⟨i, hi.of_successor hNext, hEq⟩
  · exact readsChain_visit q m head a ha

/-- A loop that returns has turned once, and either ended there or gone on with the successor. -/
theorem chainLoop_turn {n idx k len : Nat} {s s' : Backend} {desc desc' : Nat → VirtqDesc}
    (h : chainLoop (s.vq.vringNum % 2 ^ 16) (n + 1) s idx desc k = .ok (desc', len, s')) :
    k < s.vq.vringNum ∧
    ((s.vq.successor s.host.mem idx = none ∧ len = (k + 1) % 2 ^ 16 ∧ s' = s.after (visit s.vq idx)) ∨
    ∃ j desc₁, s.vq.successor s.host.mem idx = some j ∧
      chainLoop (s.vq.vringNum % 2 ^ 16) n (s.after (visit s.vq idx)) j desc₁ ((k + 1) % 2 ^ 16) =
        .ok (desc', len, s')) := by
  rw [chainLoop_succ] at h
  split at h
  · cases h
  · refine ⟨by omega, ?_⟩
    cases hSucc : s.vq.successor s.host.mem idx with
    | none =>
      rw [hSucc] at h
      cases h
      exact .inl ⟨rfl, rfl, rfl⟩
    | some j =>
      rw [hSucc] at h
      exact .inr ⟨j, _, rfl, h⟩

/-- The loop turns at least once, counts its turns modulo `2 ^ 16` and only reads. -/
theorem chainLoop_spec {n : Nat} {s : Backend} {idx : Nat} {desc : Nat → VirtqDesc} {k : Nat}
    {desc' : Nat → VirtqDesc} {len : Nat} {s' : Backend}
    (h : chainLoop (s.vq.vringNum % 2 ^ 16) n s idx desc k = .ok (desc', len, s')) :
    (∃ j, 1 ≤ j ∧ j ≤ n ∧ len = (k + j) % 2 ^ 16) ∧
    ∃ l, s' = s.after l ∧ ReadsChain s.vq s.host.mem idx l := by
  induction n generalizing s idx desc k with
  | zero => cases h
  | succ n ih =>
    obtain ⟨_, ⟨_, rfl, rfl⟩ | ⟨j, _, hSucc, hRest⟩⟩ := chainLoop_turn h
    · exact ⟨⟨1, by omega, by omega, rfl⟩, _, rfl, readsChain_visit _ _ _⟩
    · obtain ⟨⟨turns, hLow, hHigh, hLen⟩, l, hAfter, hReads⟩ := ih (s := s.after (visit s.vq idx)) hRest
      refine ⟨⟨turns + 1, by omega, by omega, by omega⟩, _, hAfter.trans (s.after_after _ _), ?_⟩
      exact hReads.of_successor hSucc

def VirtQueue.EndsWithin (q : VirtQueue) (m : Mem) : Nat → Nat → Prop
  | 0, _ => False
  | n + 1, i => ∀ j, q.successor m i = some j → q.EndsWithin m n j

theorem chainLoop_returns {n fuel : Nat} {s : Backend} {idx : Nat} {desc : Nat → VirtqDesc} {k : Nat}
    (hEnds : s.vq.EndsWithin s.host.mem n idx) (hFuel : n ≤ fuel) (hFits : k + n ≤ s.vq.vringNum)
    (hCount : k + n ≤ 2 ^ 16) : ∃ r, chainLoop (s.vq.vringNum % 2 ^ 16) fuel s idx desc k = .ok r := by
  induction n generalizing fuel s idx desc k with
  | zero => cases hEnds
  | succ n ih =>
    obtain ⟨fuel, rfl⟩ := Nat.exists_eq_add_of_le' (Nat.le_trans (Nat.le_add_left 1 n) hFuel)
    rw [chainLoop_succ, if_neg (by omega)]
    cases hSucc : s.vq.successor s.host.mem idx with
    | none => exact ⟨_, rfl⟩
    | some j =>
      cases n with
      | zero => exact (hEnds j hSucc).elim
      | succ n =>
        -- the counter has not wrapped, so the next turn is within the array again
        rw [Nat.mod_eq_of_lt (a := k + 1) (by omega)]
        exact ih (s := s.after (visit s.vq idx)) (hEnds j hSucc) (by omega)
          (by change k + 1 + (n + 1) ≤ s.vq.vringNum; omega) (by omega)

section
variable {s : Backend} {head second third : Nat} {desc : Nat → VirtqDesc}

theorem ThreeChain.vringNum_le (h : ThreeChain s.vq s.host.mem head second third) (hHead : head < s.vq.vringNum) :
    3 ≤ s.vq.vringNum := by
  have hSecond := successor_lt h.first
  have hThird := successor_lt h.middle
  have hMod := Nat.mod_le s.vq.vringNum (2 ^ 16)
  -- the three descriptors differ, since only the last has no successor
  have hNe₁ : third ≠ second := by
    rintro rfl
    cases h.last.symm.trans h.middle
  have hNe₂ : third ≠ head := by
    rintro rfl
    cases h.last.symm.trans h.first
  have hNe₃ : second ≠ head := by
    rintro rfl
    apply hNe₁
    exact Option.some.inj (h.middle.symm.trans h.first)
  omega

theorem chainLoop_next {idx k j : Nat} (n : Nat) (hk : k < s.vq.vringNum)
    (hNext : s.vq.successor s.host.mem idx = some j) :
    chainLoop (s.vq.vringNum % 2 ^ 16) (n + 1) s idx desc k = chainLoop (s.vq.vringNum % 2 ^ 16) n
      (s.after (visit s.vq idx)) j (Function.update desc k (s.vq.descAt s.host.mem idx)) ((k + 1) % 2 ^ 16) := by
  rw [chainLoop_succ, if_neg (by omega), hNext]

theorem chainLoop_last {idx k : Nat} (n : Nat) (hk : k < s.vq.vringNum)
    (hNext : s.vq.successor s.host.mem idx = none) :
    chainLoop (s.vq.vringNum % 2 ^ 16) (n + 1) s idx desc k = .ok
      (Function.update desc k (s.vq.descAt s.host.mem idx), (k + 1) % 2 ^ 16, s.after (visit s.vq idx)) := by
  rw [chainLoop_succ, if_neg (by omega), hNext]

def threeDescs (q : VirtQueue) (m : Mem) (desc : Nat → VirtqDesc) (head second third : Nat) : Nat → VirtqDesc :=
  Function.update (Function.update (Function.update desc 0 (q.descAt m head)) 1 (q.descAt m second)) 2
    (q.descAt m third)

theorem ThreeChain.chainLoop_eq (h : ThreeChain s.vq s.host.mem head second third) (hNum : 3 ≤ s.vq.vringNum)
    {n : Nat} (hn : 3 ≤ n) : chainLoop (s.vq.vringNum % 2 ^ 16) n s head desc 0 = .ok
      (threeDescs s.vq s.host.mem desc head second third, 3,
        s.after (visit s.vq third ++ (visit s.vq second ++ visit s.vq head))) := by
  obtain ⟨n, rfl⟩ := Nat.exists_eq_add_of_le' hn
  rw [chainLoop_next (n + 2) (by omega) h.first]
  refine (chainLoop_next (s := s.after (visit s.vq head)) (n + 1) ?_ h.middle).trans ?_
  · change 1 < s.vq.vringNum
    omega
  rw [Backend.after_after]
  exact chainLoop_last (s := s.after (visit s.vq second ++ visit s.vq head)) n hNum h.last

/-- The loop counts three turns only for a chain of three. -/
theorem threeChain_of_chainLoop {n : Nat} {desc' : Nat → VirtqDesc} {s' : Backend} (hn : 3 ≤ n)
    (hFew : n ≤ 2 ^ 16) (h : chainLoop (s.vq.vringNum % 2 ^ 16) n s head desc 0 = .ok (desc', 3, s')) :
    3 ≤ s.vq.vringNum ∧ ∃ second third, ThreeChain s.vq s.host.mem head second third := by
  obtain ⟨n, rfl⟩ := Nat.exists_eq_add_of_le' hn
  obtain ⟨_, ⟨_, hLen, _⟩ | ⟨second, _, hFirst, hRest⟩⟩ := chainLoop_turn h
  · omega
  obtain ⟨_, ⟨_, hLen, _⟩ | ⟨third, _, hMiddle, hRest⟩⟩ :=
    chainLoop_turn (s := s.after (visit s.vq head)) hRest
  · omega
  rw [Backend.after_after] at hRest
  obtain ⟨hNum, ⟨hLast, _, _⟩ | ⟨_, _, _, hRest⟩⟩ :=
    chainLoop_turn (s := s.after (visit s.vq second ++ visit s.vq head)) hRest
  · exact ⟨hNum, second, third, hFirst, hMiddle, hLast⟩
  · -- at least four turns, and too few for the counter to come round to 3
    rw [Backend.after_after] at hRest
    obtain ⟨⟨turns, hLow, hHigh, hLen⟩, _⟩ :=
      chainLoop_spec (s := s.after (visit s.vq third ++ (visit s.vq second ++ visit s.vq head))) hRest
    omega

end

end HyperPoc.Virtio
