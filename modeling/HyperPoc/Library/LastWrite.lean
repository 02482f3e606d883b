import HyperPoc.Library.Run

/-! # Stores in which the latest write wins

A state is looked at through the values it holds at keys. When one operation changes the value at
each key in a known way, a sequence of operations changes it by the fold of these changes; and when
an operation either carries a new value or leaves the old one, the latest value carried is what is
found in the end.
-/
namespace Library.LastWrite
set_option autoImplicit false

variable {σ ω κ α β ε : Type}

theorem get_foldl {f : σ → ω → σ} {g : σ → α} {change : α → ω → α} {I : σ → Prop} (ops : List ω)
    (hStep : ∀ op ∈ ops, ∀ s, I s → I (f s op) ∧ g (f s op) = change (g s) op) (s : σ) (hInv : I s) :
    g (ops.foldl f s) = ops.foldl change (g s) := by
  induction ops generalizing s with
  | nil => rfl
  | cons op ops ih =>
    obtain ⟨hInv', hGet⟩ := hStep op List.mem_cons_self s hInv
    rw [List.foldl_cons, List.foldl_cons, ih (fun op' h => hStep op' (List.mem_cons_of_mem _ h)) _ hInv', hGet]

/-- The value the latest operation carries among those that carry one. -/
def latest (carry : ω → Option β) (ops : List ω) : Option β := ops.reverse.findSome? carry

theorem latest_cons (carry : ω → Option β) (op : ω) (ops : List ω) :
    latest carry (op :: ops) = (latest carry ops).or (carry op) := by
  rw [latest, List.reverse_cons, List.findSome?_append, List.findSome?_singleton, latest]

theorem latest_eq_none {carry : ω → Option β} {ops : List ω} (h : latest carry ops = none) :
    ∀ op ∈ ops, carry op = none := by
  rw [latest, List.findSome?_eq_none_iff] at h
  intro op hOp
  exact h op (List.mem_reverse.mpr hOp)

theorem exists_of_latest {carry : ω → Option β} {ops : List ω} {v : β} (h : latest carry ops = some v) :
    ∃ op ∈ ops, carry op = some v := by
  obtain ⟨op, hOp, hCarry⟩ := List.exists_of_findSome?_eq_some h
  exact ⟨op, List.mem_reverse.mp hOp, hCarry⟩

theorem foldl_latest (carry : ω → Option β) (ops : List ω) (v : β) :
    ops.foldl (fun v op => (carry op).getD v) v = (latest carry ops).getD v := by
  induction ops generalizing v with
  | nil => rfl
  | cons op ops ih =>
    rw [List.foldl_cons, ih, latest_cons]
    cases latest carry ops with
    | none => rw [Option.none_or, Option.getD_none]
    | some w => rw [Option.some_or, Option.getD_some, Option.getD_some]

/-- A value that each operation either carries anew or leaves alone. -/
theorem get_foldl_latest {f : σ → ω → σ} {g : σ → β} {carry : ω → Option β} {I : σ → Prop}
    (ops : List ω) (hStep : ∀ op ∈ ops, ∀ s, I s → I (f s op) ∧ g (f s op) = (carry op).getD (g s)) (s : σ)
    (hInv : I s) :
    g (ops.foldl f s) = (latest carry ops).getD (g s) :=
  (get_foldl ops hStep s hInv).trans (foldl_latest carry ops (g s))

theorem foldl_range_single {next : α → Nat → α} {n k : Nat} (v : α)
    (h : ∀ i, i ≠ k → ∀ v, next v i = v) :
    (List.range n).foldl next v = if k < n then next v k else v := by
  induction n with
  | zero => rfl
  | succ n ih =>
    rw [List.range_succ, List.foldl_append, ih, List.foldl_cons, List.foldl_nil]
    obtain rfl | hNe := eq_or_ne n k
    · rw [if_neg (Nat.lt_irrefl n), if_pos (Nat.lt_succ_self n)]
    · rw [h n hNe]
      have hIff : k < n ↔ k < n + 1 := by omega
      simp only [hIff]

end Library.LastWrite
