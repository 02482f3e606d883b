import HyperPoc.Virtio.Queue

/-! # The rings of a configured queue

Both sides count requests with free-running 16-bit indices from a common start `c`. Request number
`k` uses slot `(c + k) % n` of each ring; as the size divides `2 ^ 16` this is the slot of the
wrapped index as well. At most `n` requests are under way, so that no two of them share a slot.
-/
namespace HyperPoc.Virtio
open Library.Memory
set_option autoImplicit false

structure Sized (n base : Nat) : Prop where
  power : ∃ e, 1 ≤ e ∧ e ≤ 6 ∧ n = 2 ^ e
  bound : base + 8192 < 2 ^ 64

/-- The pointers `vq_ring_init` computes. -/
structure Layout (n base : Nat) (q : VirtQueue) : Prop where
  vringNum : q.vringNum = n
  avail : q.avail = base + 16 * n
  used : q.used = base + 4096

def availIdxAt (n base : Nat) : Nat := base + 16 * n + 2
def slotAt (n base i : Nat) : Nat := base + 16 * n + 4 + 2 * (i % n)
def usedIdxAt (base : Nat) : Nat := base + 4098
def elemAt (n base i : Nat) : Nat := base + 4100 + 8 * (i % n)

def RingByte (n base b : Nat) : Prop :=
  (base + 16 * n ≤ b ∧ b < base + 18 * n + 4) ∨ (base + 4096 ≤ b ∧ b < base + 4100 + 8 * n)

section
variable {n base : Nat} {q : VirtQueue}

theorem Sized.le (h : Sized n base) : 2 ≤ n ∧ n ≤ 64 := by
  obtain ⟨e, hLow, hHigh, rfl⟩ := h.power
  exact ⟨Nat.pow_le_pow_right (n := 2) (by decide) hLow, Nat.pow_le_pow_right (n := 2) (by decide) hHigh⟩

theorem Sized.mod_mod (h : Sized n base) (i : Nat) : i % 2 ^ 16 % n = i % n := by
  obtain ⟨e, _, hHigh, rfl⟩ := h.power
  exact Nat.mod_mod_of_dvd i (Nat.pow_dvd_pow 2 (by omega))

theorem Sized.mod_lt (h : Sized n base) (i : Nat) : i % n < n := Nat.mod_lt i (by have := h.le; omega)

theorem Layout.availIdxAddr (h : Layout n base q) (hSize : Sized n base) : q.availIdxAddr = availIdxAt n base := by
  have hLe := hSize.le
  have hBound := hSize.bound
  rw [VirtQueue.availIdxAddr, h.avail, u64_of_lt (by omega), availIdxAt]

theorem Layout.availAddr (h : Layout n base q) (hSize : Sized n base) (i : Nat) : q.availAddr i = slotAt n base i := by
  have hLe := hSize.le
  have hBound := hSize.bound
  have hLt := hSize.mod_lt i
  rw [VirtQueue.availAddr, h.avail, h.vringNum, u64_of_lt (by omega), slotAt]

theorem Layout.usedIdxAddr (h : Layout n base q) (hSize : Sized n base) : q.usedIdxAddr = usedIdxAt base := by
  have hBound := hSize.bound
  rw [VirtQueue.usedIdxAddr, h.used, u64_of_lt (by omega), usedIdxAt]

theorem Layout.usedAddr (h : Layout n base q) (hSize : Sized n base) (i : Nat) : q.usedAddr i = elemAt n base i := by
  have hLe := hSize.le
  have hBound := hSize.bound
  have hLt := hSize.mod_lt i
  rw [VirtQueue.usedAddr, h.used, h.vringNum, u64_of_lt (by omega), elemAt]

theorem slotAt_wrap (h : Sized n base) (i : Nat) : slotAt n base (i % 2 ^ 16) = slotAt n base i := by
  rw [slotAt, slotAt, h.mod_mod]

theorem elemAt_wrap (h : Sized n base) (i : Nat) : elemAt n base (i % 2 ^ 16) = elemAt n base i := by
  rw [elemAt, elemAt, h.mod_mod]

/-- Fewer than `n` requests apart, slots differ. -/
theorem eq_of_mod_eq {i j : Nat} (hLe : i ≤ j) (hLt : j < i + n) (hMod : i % n = j % n) : i = j := by
  have hZero := Nat.sub_mod_eq_zero_of_mod_eq hMod.symm
  rw [Nat.mod_eq_of_lt (by omega)] at hZero
  omega

end

/-- The rings hold the requests under way: `published` are all heads ever made available, `used` all
elements ever returned, and `writing` is a head that is in its slot but not yet counted. -/
structure Ring (n base c : Nat) (m : Mem) (published : List Nat) (used : List (Nat × Nat)) (writing : Option Nat) :
    Prop where
  availIdx : load m (availIdxAt n base) 2 = (c + published.length) % 2 ^ 16
  usedIdx : load m (usedIdxAt base) 2 = (c + used.length) % 2 ^ 16
  slots : ∀ k head, used.length ≤ k → published[k]? = some head → load m (slotAt n base (c + k)) 2 = head
  inSlot : ∀ head, writing = some head → published.length < used.length + n ∧
    load m (slotAt n base (c + published.length)) 2 = head
  le : used.length ≤ published.length
  room : published.length ≤ used.length + n

section
variable {n base c : Nat} {m m' : Mem} {published : List Nat} {used : List (Nat × Nat)} {writing : Option Nat}

theorem Ring.congr (h : Ring n base c m published used writing) (hSize : Sized n base)
    (hSame : ∀ b, RingByte n base b → m' b = m b) : Ring n base c m' published used writing := by
  have hLe := hSize.le
  have hAvail : load m' (availIdxAt n base) 2 = load m (availIdxAt n base) 2 := by
    apply load_congr
    intro i hi
    exact hSame _ (.inl (by rw [availIdxAt]; omega))
  have hUsed : load m' (usedIdxAt base) 2 = load m (usedIdxAt base) 2 := by
    apply load_congr
    intro i hi
    exact hSame _ (.inr (by rw [usedIdxAt]; omega))
  have hSlot : ∀ j, load m' (slotAt n base j) 2 = load m (slotAt n base j) 2 := by
    intro j
    have hLt := hSize.mod_lt j
    apply load_congr
    intro i hi
    exact hSame _ (.inl (by rw [slotAt]; omega))
  refine ⟨hAvail.trans h.availIdx, hUsed.trans h.usedIdx, ?_, ?_, h.le, h.room⟩
  · intro k head hk hHead
    exact (hSlot _).trans (h.slots k head hk hHead)
  · intro head hWriting
    obtain ⟨hRoom, hLoad⟩ := h.inSlot head hWriting
    exact ⟨hRoom, (hSlot _).trans hLoad⟩

theorem load_store_u16 (m : Mem) (a v : Nat) : load (store m a 2 (v % 2 ^ 16)) a 2 = v % 2 ^ 16 := by
  apply load_store
  exact Nat.mod_lt v (by decide)

/-- The driver puts a head into the slot after the last request. -/
theorem Ring.writeSlot (h : Ring n base c m published used none) (hSize : Sized n base) {head : Nat}
    (hHead : head < 2 ^ 16) (hRoom : published.length < used.length + n) :
    Ring n base c (store m (slotAt n base (c + published.length)) 2 head) published used (some head) := by
  have hLe := hSize.le
  have hLt := hSize.mod_lt (c + published.length)
  refine ⟨?_, ?_, ?_, ?_, h.le, h.room⟩
  · rw [load_store_of_disjoint (by rw [slotAt, availIdxAt]; omega)]
    exact h.availIdx
  · rw [load_store_of_disjoint (by rw [slotAt, usedIdxAt]; omega)]
    exact h.usedIdx
  · intro k head' hk hGet
    have hLen : k < published.length := (List.getElem?_eq_some_iff.mp hGet).1
    -- the requests under way do not use the slot
    have hNe : (c + k) % n ≠ (c + published.length) % n := by
      intro hMod
      have := eq_of_mod_eq (by omega) (by omega) hMod
      omega
    rw [load_store_of_disjoint (by rw [slotAt, slotAt]; omega)]
    exact h.slots k head' hk hGet
  · intro head' hEq
    cases hEq
    exact ⟨hRoom, load_store hHead⟩

theorem Ring.publish {head : Nat} (h : Ring n base c m published used (some head)) (hSize : Sized n base) :
    Ring n base c (store m (availIdxAt n base) 2 ((load m (availIdxAt n base) 2 + 1) % 2 ^ 16)) (published ++ [head])
      used none := by
  have hLe := hSize.le
  obtain ⟨hRoom, hSlot⟩ := h.inSlot head rfl
  have hKept : ∀ j, load (store m (availIdxAt n base) 2 ((load m (availIdxAt n base) 2 + 1) % 2 ^ 16))
      (slotAt n base j) 2 = load m (slotAt n base j) 2 := by
    intro j
    exact load_store_of_disjoint (by rw [slotAt, availIdxAt]; omega)
  refine ⟨?_, ?_, ?_, ?_, ?_, ?_⟩
  · rw [load_store_u16, h.availIdx, List.length_append, List.length_singleton]
    omega
  · rw [load_store_of_disjoint (by rw [usedIdxAt, availIdxAt]; omega)]
    exact h.usedIdx
  · intro k head' hk hGet
    rw [hKept]
    obtain hLt | hGe := Nat.lt_or_ge k published.length
    · rw [List.getElem?_append_left hLt] at hGet
      exact h.slots k head' hk hGet
    · rw [List.getElem?_append_right hGe] at hGet
      obtain ⟨hZero, rfl⟩ : k - published.length = 0 ∧ head = head' := by
        simpa [List.getElem?_singleton] using hGet
      rw [show k = published.length by omega]
      exact hSlot
  · intro head' hNone
    cases hNone
  · rw [List.length_append]
    exact Nat.le_add_right_of_le h.le
  · rw [List.length_append, List.length_singleton]
    omega

/-- The backend writes into the used element it will return next. -/
theorem Ring.writeElem (h : Ring n base c m published used writing) (hSize : Sized n base) (i k v : Nat)
    (hk : k + 4 ≤ 8) : Ring n base c (store m (elemAt n base i + k) 4 v) published used writing := by
  have hLe := hSize.le
  have hSlot : ∀ j, load (store m (elemAt n base i + k) 4 v) (slotAt n base j) 2 = load m (slotAt n base j) 2 := by
    intro j
    have hLt := hSize.mod_lt j
    exact load_store_of_disjoint (by rw [slotAt, elemAt]; omega)
  refine ⟨?_, ?_, ?_, ?_, h.le, h.room⟩
  · rw [load_store_of_disjoint (by rw [elemAt, availIdxAt]; omega)]
    exact h.availIdx
  · rw [load_store_of_disjoint (by rw [elemAt, usedIdxAt]; omega)]
    exact h.usedIdx
  · intro j head hj hGet
    rw [hSlot]
    exact h.slots j head hj hGet
  · intro head hWriting
    rw [hSlot]
    exact h.inSlot head hWriting

theorem Ring.complete (h : Ring n base c m published used writing) (hSize : Sized n base) (e : Nat × Nat)
    (hLt : used.length < published.length) :
    Ring n base c (store m (usedIdxAt base) 2 ((load m (usedIdxAt base) 2 + 1) % 2 ^ 16)) published (used ++ [e])
      writing := by
  have hLe := hSize.le
  have hRoom := h.room
  have hSlot : ∀ j, load (store m (usedIdxAt base) 2 ((load m (usedIdxAt base) 2 + 1) % 2 ^ 16))
      (slotAt n base j) 2 = load m (slotAt n base j) 2 := by
    intro j
    have hLt := hSize.mod_lt j
    exact load_store_of_disjoint (by rw [slotAt, usedIdxAt]; omega)
  have hLen : (used ++ [e]).length = used.length + 1 := List.length_append
  refine ⟨?_, ?_, ?_, ?_, by omega, by omega⟩
  · rw [load_store_of_disjoint (by rw [usedIdxAt, availIdxAt]; omega)]
    exact h.availIdx
  · rw [load_store_u16, h.usedIdx, hLen]
    omega
  · intro k head hk hGet
    rw [hSlot]
    exact h.slots k head (by omega) hGet
  · intro head hWriting
    obtain ⟨hRoom, hLoad⟩ := h.inSlot head hWriting
    rw [hSlot]
    exact ⟨by omega, hLoad⟩

end

end HyperPoc.Virtio
