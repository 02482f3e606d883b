import Mathlib.Logic.Relation
import Mathlib.Tactic.Common

/-! # Runs of fallible and of nondeterministic steps

A deterministic program is a function into `Except`, a sequence of calls is a monadic fold, and a
system with a scheduler is a step relation whose runs are its reflexive transitive closure. The
rules here turn what one step keeps into what a run keeps.
-/
namespace Library.Run
set_option autoImplicit false

variable {σ τ α β ε : Type}

theorem ok_bind (a : α) (f : α → Except ε β) : ((.ok a : Except ε α) >>= f) = f a := rfl

theorem bind_eq_ok {x : Except ε α} {f : α → Except ε β} {b : β} :
    (x >>= f) = .ok b ↔ ∃ a, x = .ok a ∧ f a = .ok b := by
  cases x with
  | error e =>
    constructor
    · intro h
      cases h
    · rintro ⟨a, hx, _⟩
      cases hx
  | ok a =>
    constructor
    · intro h
      exact ⟨a, rfl, h⟩
    · rintro ⟨a', hx, h⟩
      cases hx
      exact h

theorem bind_eq_error {x : Except ε α} {f : α → Except ε β} {e : ε} :
    (x >>= f) = .error e ↔ x = .error e ∨ ∃ a, x = .ok a ∧ f a = .error e := by
  cases x with
  | error e' =>
    constructor
    · intro h
      cases h
      exact .inl rfl
    · rintro (hx | ⟨a, hx, _⟩) <;> cases hx
      rfl
  | ok a =>
    constructor
    · intro h
      exact .inr ⟨a, rfl, h⟩
    · rintro (hx | ⟨a', hx, h⟩) <;> cases hx
      exact h

/-- What holds of the result if the call returns, and of the error if it stops. -/
inductive Ends (P : α → Prop) (E : ε → Prop) : Except ε α → Prop
  | ok {a : α} (h : P a) : Ends P E (.ok a)
  | error {e : ε} (h : E e) : Ends P E (.error e)

theorem Ends.bind {P : α → Prop} {Q : β → Prop} {E : ε → Prop} {x : Except ε α} {f : α → Except ε β}
    (hx : Ends P E x) (hf : ∀ a, P a → Ends Q E (f a)) : Ends Q E (x >>= f) := by
  cases hx with
  | ok h => exact hf _ h
  | error h => exact .error h

theorem Ends.ite {P : α → Prop} {E : ε → Prop} {c : Prop} [Decidable c] {x y : Except ε α} (hx : Ends P E x)
    (hy : Ends P E y) : Ends P E (if c then x else y) := by
  split
  · exact hx
  · exact hy

/-- `y` is `x`, unless it has stopped earlier; then `x` does not return, or returns something bad. -/
def Unless (Stopped : ε → Prop) (Bad : α → Prop) (x y : Except ε α) : Prop :=
  x = y ∨ (∃ e, y = .error e ∧ Stopped e) ∧ ∀ a, x = .ok a → Bad a

theorem Unless.bind {Stopped : ε → Prop} {Bad : α → Prop} {Bad' : β → Prop} {x y : Except ε α}
    {f g : α → Except ε β} (hx : Unless Stopped Bad x y) (hf : ∀ a, Unless Stopped Bad' (f a) (g a))
    (hBad : ∀ a b, Bad a → f a = .ok b → Bad' b) : Unless Stopped Bad' (x >>= f) (y >>= g) := by
  obtain rfl | ⟨⟨e, rfl, hStop⟩, hBadX⟩ := hx
  · cases x with
    | error e => exact .inl rfl
    | ok a => exact hf a
  · refine .inr ⟨⟨e, rfl, hStop⟩, fun b hb => ?_⟩
    obtain ⟨a, ha, hRest⟩ := bind_eq_ok.mp hb
    exact hBad a b (hBadX a ha) hRest

theorem Unless.eq_ok {Stopped : ε → Prop} {Bad : α → Prop} {x y : Except ε α} {a : α}
    (h : Unless Stopped Bad x y) (hx : x = .ok a) (hGood : ¬Bad a) : y = .ok a := by
  obtain rfl | ⟨_, hBad⟩ := h
  · exact hx
  · exact (hGood (hBad a hx)).elim

theorem Unless.of_ok {Stopped : ε → Prop} {Bad : α → Prop} {x y : Except ε α} {a : α}
    (h : Unless Stopped Bad x y) (hy : y = .ok a) : x = .ok a := by
  obtain rfl | ⟨⟨e, hStop, _⟩, _⟩ := h
  · exact hy
  · rw [hStop] at hy
    cases hy

def returns (x : Except ε α) (p : α → Bool) : Bool :=
  match x with
  | .ok a => p a
  | .error _ => false

theorem exists_of_returns {x : Except ε α} {p : α → Bool} (h : returns x p = true) :
    ∃ a, x = .ok a ∧ p a = true := by
  cases x with
  | error e => cases h
  | ok a => exact ⟨a, rfl, h⟩

def stopsWith [DecidableEq ε] (x : Except ε α) (e : ε) : Bool :=
  match x with
  | .ok _ => false
  | .error e' => e' == e

theorem eq_error_of_stopsWith [DecidableEq ε] {x : Except ε α} {e : ε} (h : stopsWith x e = true) :
    x = .error e := by
  cases x with
  | ok a => cases h
  | error e' => rw [eq_of_beq h]

theorem foldlM_eq_foldl {step : σ → α → Except ε σ} {f : σ → α → σ} {I : σ → Prop} (ops : List α)
    (hStep : ∀ op ∈ ops, ∀ s, I s → step s op = .ok (f s op) ∧ I (f s op)) (s : σ) (hInv : I s) :
    ops.foldlM step s = .ok (ops.foldl f s) := by
  induction ops generalizing s with
  | nil => rfl
  | cons op ops ih =>
    obtain ⟨hOp, hInv'⟩ := hStep op List.mem_cons_self s hInv
    rw [List.foldlM_cons, hOp, List.foldl_cons]
    exact ih (fun op' h => hStep op' (List.mem_cons_of_mem _ h)) (f s op) hInv'

/-- A relation kept by each call between a program and an abstract machine is kept by every
sequence of calls that returns. -/
theorem foldlM_simulation (step : σ → α → Except ε σ) (next : τ → α → τ) (R : σ → τ → Prop)
    (ops : List α) (hStep : ∀ op ∈ ops, ∀ s t s', R s t → step s op = .ok s' → R s' (next t op))
    (s : σ) (t : τ) (s' : σ) (hR : R s t) (hRun : ops.foldlM step s = .ok s') :
    R s' (ops.foldl next t) := by
  induction ops generalizing s t with
  | nil =>
    cases hRun
    exact hR
  | cons op ops ih =>
    rw [List.foldlM_cons] at hRun
    obtain ⟨s₁, hOp, hRest⟩ := bind_eq_ok.mp hRun
    have hR₁ := hStep op List.mem_cons_self s t s₁ hR hOp
    exact ih (fun op' h => hStep op' (List.mem_cons_of_mem _ h)) s₁ (next t op) hR₁ hRest

/-- Two programs that stop for the same reason or return related values. -/
inductive Agree (R : α → β → Prop) : Except ε α → Except ε β → Prop
  | ok {a : α} {b : β} (h : R a b) : Agree R (.ok a) (.ok b)
  | error (e : ε) : Agree R (.error e) (.error e)

theorem Agree.bind {α' β' : Type} {R : α → β → Prop} {S : α' → β' → Prop} {x : Except ε α}
    {y : Except ε β} {f : α → Except ε α'} {g : β → Except ε β'} (h : Agree R x y)
    (hNext : ∀ a b, R a b → Agree S (f a) (g b)) :
    Agree S (x >>= f) (y >>= g) := by
  cases h with
  | ok h => exact hNext _ _ h
  | error e => exact .error e

theorem agree_refl {R : α → α → Prop} (hR : ∀ a, R a a) (x : Except ε α) : Agree R x x := by
  cases x with
  | ok a => exact .ok (hR a)
  | error e => exact .error e

theorem agree_self {R : β → β → Prop} (x : Except ε α) {f g : α → Except ε β}
    (hNext : ∀ a, Agree R (f a) (g a)) :
    Agree R (x >>= f) (x >>= g) := by
  cases x with
  | ok a => exact hNext a
  | error e => exact .error e

theorem Agree.foldlM {f : σ → α → Except ε σ} {g : τ → α → Except ε τ} {R : σ → τ → Prop}
    (ops : List α) (hStep : ∀ op ∈ ops, ∀ s t, R s t → Agree R (f s op) (g t op)) {s : σ} {t : τ}
    (hR : R s t) :
    Agree R (ops.foldlM f s) (ops.foldlM g t) := by
  induction ops generalizing s t with
  | nil => exact .ok hR
  | cons op ops ih =>
    rw [List.foldlM_cons, List.foldlM_cons]
    apply (hStep op List.mem_cons_self s t hR).bind
    intro s' t' hR'
    exact ih (fun op' h => hStep op' (List.mem_cons_of_mem _ h)) hR'

/-- What holds initially and is kept by each step holds along every run. -/
theorem invariant {step : σ → σ → Prop} {Inv : σ → Prop}
    (hStep : ∀ s s', Inv s → step s s' → Inv s') {s s' : σ} (hInit : Inv s)
    (hRun : Relation.ReflTransGen step s s') : Inv s' := by
  induction hRun with
  | refl => exact hInit
  | tail _ hLast ih => exact hStep _ _ ih hLast

end Library.Run
