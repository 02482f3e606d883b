import Mathlib.Logic.Function.Basic

/-! # Address spaces over one memory

Several address spaces are laid over one memory: `walk v a` is where the address `a` of space `v` lies,
if it is backed. Where no two backed addresses lie at one place, each space is a memory of its own: a
write through one space is a write to the memory of that space and to no other.
-/
namespace Library.AddressSpaces
set_option autoImplicit false

variable {V A X B : Type}

/-- No place is behind two addresses. -/
def Separate (walk : V → A → Option X) : Prop :=
  ∀ v w a b x, walk v a = some x → walk w b = some x → v = w ∧ a = b

/-- The memory of one space. -/
def view (walk : V → A → Option X) (m : X → B) (v : V) (a : A) : Option B := (walk v a).map m

/-- A write through a space; one to an address that is not backed is lost. -/
def write [DecidableEq X] (walk : V → A → Option X) (m : X → B) (v : V) (a : A) (b : B) : X → B :=
  match walk v a with
  | none => m
  | some x => Function.update m x b

/-- A write to the memory of one space on its own. -/
def put [DecidableEq A] (p : A → Option B) (a : A) (b : B) : A → Option B :=
  if (p a).isSome then Function.update p a (some b) else p

section
variable {walk : V → A → Option X} {m m' : X → B}

theorem view_congr {v : V} (h : ∀ a x, walk v a = some x → m' x = m x) : view walk m' v = view walk m v := by
  funext a
  rw [view, view]
  cases hWalk : walk v a with
  | none => rfl
  | some x => rw [Option.map_some, Option.map_some, h a x hWalk]

variable [DecidableEq X]

theorem write_of_ne {v : V} {a : A} (b : B) {x : X} (h : walk v a ≠ some x) : write walk m v a b x = m x := by
  rw [write]
  cases hWalk : walk v a with
  | none => rfl
  | some y =>
    have hNe : x ≠ y := by
      rintro rfl
      exact h hWalk
    exact Function.update_of_ne hNe _ _

theorem view_write_self [DecidableEq A] (hSeparate : Separate walk) (v : V) (a : A) (b : B) :
    view walk (write walk m v a b) v = put (view walk m v) a b := by
  funext a'
  cases hWalk : walk v a with
  | none => simp [put, view, write, hWalk]
  | some x =>
    have hBacked : (view walk m v a).isSome = true := by
      rw [view, hWalk]
      rfl
    rw [put, if_pos hBacked]
    obtain rfl | hNe := eq_or_ne a' a
    · simp [view, write, hWalk]
    · have hPlace : walk v a' ≠ some x := fun hSame => hNe (hSeparate v v a' a x hSame hWalk).2
      rw [Function.update_of_ne hNe, view, view]
      cases hOther : walk v a' with
      | none => rfl
      | some y =>
        rw [Option.map_some, Option.map_some, write_of_ne]
        rw [hWalk]
        rintro ⟨⟩
        exact hPlace hOther

theorem view_write_other (hSeparate : Separate walk) {v w : V} (hNe : w ≠ v) (a : A) (b : B) :
    view walk (write walk m v a b) w = view walk m w := by
  apply view_congr
  intro a' x hWalk
  apply write_of_ne
  intro hSame
  exact hNe (hSeparate w v a' a x hWalk hSame).1

end

/-- Of a family with one more member, a member is an old one or the last. -/
theorem getElem?_concat {l : List V} {a b : V} {i : Nat} (h : (l ++ [a])[i]? = some b) :
    l[i]? = some b ∨ i = l.length ∧ a = b := by
  obtain hLt | hGe := Nat.lt_or_ge i l.length
  · rw [List.getElem?_append_left hLt] at h
    exact .inl h
  · have hLt := (List.getElem?_eq_some_iff.mp h).1
    rw [List.length_append, List.length_singleton] at hLt
    obtain rfl : i = l.length := by omega
    rw [List.getElem?_concat_length] at h
    exact .inr ⟨rfl, Option.some.inj h⟩

end Library.AddressSpaces
