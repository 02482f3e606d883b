import HyperPoc.Printf.Number
import HyperPoc.Library.Memory
import Mathlib.Data.Nat.Find

/-! # The format scanner

`vprintf` and `fetch_digit` move one pointer over the format. The format is the list of its bytes with the
NUL at the end, and a read behind the NUL is a stop. Every format is a sequence of characters and
conversion specifications, possibly with an unfinished specification at its end.
-/
namespace HyperPoc.Printf
open Library.Memory Library.Run
set_option autoImplicit false

/-- The arguments: the words that `va_arg` takes in turn, and the memory that pointers among them point
to, in which every string ends. -/
structure VaList where
  word : Nat → Nat
  mem : Mem
  terminated : ∀ a, ∃ n, mem (a + n) = 0

def VaList.string (v : VaList) (a : Nat) : List UInt8 :=
  (List.range (Nat.find (v.terminated a))).map fun i => v.mem (a + i)

def percent : UInt8 := 0x25

def isDigit (c : UInt8) : Bool := 0x30 ≤ c && c ≤ 0x39

def deref : List UInt8 → Outcome UInt8
  | [] => .error .outOfBounds
  | c :: _ => .ok c

def addDigit (n : Int) (c : UInt8) : Int := i32 (n * 10 + c.toNat - 0x30)

def digitRun (n : Int) : List UInt8 → Outcome (Int × List UInt8)
  | [] => .error .outOfBounds
  | c :: fmt => if isDigit c then digitRun (addDigit n c) fmt else .ok (n, c :: fmt)

def fetchSign (fmt : List UInt8) : Outcome (Bool × List UInt8) := do
  let c ← deref fmt
  return if c = minus then (true, fmt.tail) else (false, fmt)

def fetchDigit (fmt : List UInt8) : Outcome (Int × List UInt8) := do
  let (neg, fmt) ← fetchSign fmt
  let (n, fmt) ← digitRun 0 fmt
  return (if neg then i32 (-n) else n, fmt)

def macLoop (m : Mem) (mac : Nat) : Nat → Outcome (List UInt8)
  | 0 => return []
  | left + 1 => do
    let i := 5 - left
    let out ← printiu64 (m (u64 (mac + i))).toNat 16 false 2 0
    let rest ← macLoop m mac left
    return out ++ (if i ≠ 5 then [0x3a] else []) ++ rest

def printmacaddr (m : Mem) (mac : Nat) : Outcome (List UInt8) := macLoop m mac 6

/-- The `switch` of `vprintf`, with the number of arguments taken so far. -/
def convert (v : VaList) (ap : Nat) (digit : Int) (c : UInt8) : Outcome (List UInt8 × Nat) :=
  let arg := v.word ap
  if c = 0x64 then do return (← printiu64 (i32 arg) 10 true digit 0, ap + 1)
  else if c = 0x75 then do return (← printiu64 (arg % 2 ^ 32 : Nat) 10 false digit 0, ap + 1)
  else if c = 0x78 then do return (← printiu64 (i64 arg) 16 false digit 0, ap + 1)
  else if c = 0x70 then do return (← printiu64 (i64 arg) 16 false digit print0x, ap + 1)
  else if c = 0x63 then return ([UInt8.ofNat arg], ap + 1)
  else if c = 0x73 then return (if u64 arg = 0 then chars "(null)" else v.string (u64 arg), ap + 1)
  else if c = 0x6d then do return (← printmacaddr v.mem (u64 arg), ap + 1)
  else if c = percent then return ([percent], ap)
  else return ([percent, c], ap)

/-- The loop of `vprintf`, with what it sends. -/
def vprintfLoop (v : VaList) : (fuel : Nat) → List UInt8 → (ap : Nat) → Outcome (List UInt8)
  | 0, _, _ => .error .diverges
  | fuel + 1, fmt, ap => do
    let c ← deref fmt
    if c = 0 then return []
    else if c = percent then
      let (digit, fmt) ← fetchDigit fmt.tail
      let c ← deref fmt
      let (out, ap) ← convert v ap digit c
      let rest ← vprintfLoop v fuel fmt.tail ap
      return out ++ rest
    else
      let rest ← vprintfLoop v fuel fmt.tail ap
      return c :: rest

/-- Every turn moves the pointer, so that the length of the format bounds the turns. -/
def vprintf (v : VaList) (fmt : List UInt8) : Outcome (List UInt8) := vprintfLoop v (fmt.length + 1) fmt 0

/-- A character that stands for itself, or a specification: a minus sign or none, digits and the
character that names the conversion. -/
inductive Piece
  | literal (c : UInt8)
  | spec (left : Bool) (width : List UInt8) (c : UInt8)

def opening (left : Bool) (width : List UInt8) : List UInt8 := percent :: ((if left then [minus] else []) ++ width)

def Piece.spelled : Piece → List UInt8
  | .literal c => [c]
  | .spec left width c => opening left width ++ [c]

/-- The first character that the scanner does not take for a part of the opening. -/
structure Follows (left : Bool) (width : List UInt8) (c : UInt8) : Prop where
  digits : ∀ d ∈ width, isDigit d = true
  notDigit : isDigit c = false
  notMinus : left = false → width = [] → c ≠ minus

def Piece.Valid : Piece → Prop
  | .literal c => c ≠ 0 ∧ c ≠ percent
  | .spec left width c => c ≠ 0 ∧ Follows left width c

def widthValue (left : Bool) (width : List UInt8) : Int :=
  if left then i32 (-width.foldl addDigit 0) else width.foldl addDigit 0

/-- What the pieces send, from the argument `ap` on: a literal sends itself, and a specification what its
conversion gives. -/
inductive Emits (v : VaList) : Nat → List Piece → List UInt8 → Nat → Prop
  | nil {ap : Nat} : Emits v ap [] [] ap
  | literal {ap ap' : Nat} {c : UInt8} {ps : List Piece} {out : List UInt8} :
      Emits v ap ps out ap' → Emits v ap (.literal c :: ps) (c :: out) ap'
  | spec {ap ap' ap'' : Nat} {left : Bool} {width : List UInt8} {c : UInt8} {ps : List Piece}
      {shown out : List UInt8} : convert v ap (widthValue left width) c = .ok (shown, ap') →
      Emits v ap' ps out ap'' → Emits v ap (.spec left width c :: ps) (shown ++ out) ap''

/-- The scanner stays in the format: it returns at the NUL, with each character outside the
specifications sent in its place. -/
def Scans (v : VaList) (cs : List UInt8) : Prop :=
  ∃ (ps : List Piece) (out : List UInt8) (ap : Nat), (∀ p ∈ ps, p.Valid) ∧ cs = ps.flatMap Piece.spelled ∧
    Emits v 0 ps out ap ∧ vprintf v (cs ++ [0]) = .ok out

/-- The format ends inside a specification. -/
def Truncated (cs : List UInt8) : Prop :=
  ∃ (ps : List Piece) (left : Bool) (width : List UInt8), (∀ p ∈ ps, p.Valid) ∧
    (∀ d ∈ width, isDigit d = true) ∧ cs = ps.flatMap Piece.spelled ++ opening left width

section Conversions

def Returns {α : Type} (x : Outcome α) : Prop := Ends (fun _ => True) (fun _ => False) x

theorem Returns.exists_ok {α : Type} {x : Outcome α} (h : Returns x) : ∃ a, x = .ok a := by
  cases h with
  | @ok a _ => exact ⟨a, rfl⟩
  | error hNever => exact hNever.elim

theorem printiu64_returns {base : Nat} (hBase : base = 10 ∨ base = 16) (num : Int) (sign : Bool) (digit : Int)
    (opt : Nat) : Returns (printiu64 num base sign digit opt) := by
  rw [printiu64_eq num sign opt hBase digit]
  exact .ok trivial

theorem macLoop_returns (m : Mem) (mac n : Nat) : Returns (macLoop m mac n) := by
  induction n with
  | zero => exact .ok trivial
  | succ n ih => exact .bind (printiu64_returns (.inr rfl) _ _ _ _) fun _ _ => .bind ih fun _ _ => .ok trivial

theorem convert_returns (v : VaList) (ap : Nat) (digit : Int) (c : UInt8) : Returns (convert v ap digit c) := by
  -- one case for each label of the `switch`, in its order
  refine .ite (.bind (printiu64_returns (.inl rfl) _ _ _ _) fun _ _ => .ok trivial) ?_
  refine .ite (.bind (printiu64_returns (.inl rfl) _ _ _ _) fun _ _ => .ok trivial) ?_
  refine .ite (.bind (printiu64_returns (.inr rfl) _ _ _ _) fun _ _ => .ok trivial) ?_
  refine .ite (.bind (printiu64_returns (.inr rfl) _ _ _ _) fun _ _ => .ok trivial) ?_
  refine .ite (.ok trivial) (.ite (.ok trivial) ?_)
  refine .ite (.bind (macLoop_returns _ _ _) fun _ _ => .ok trivial) ?_
  exact .ite (.ok trivial) (.ok trivial)

end Conversions

theorem digitRun_eq {width : List UInt8} {c : UInt8} (hWidth : ∀ d ∈ width, isDigit d = true)
    (hc : isDigit c = false) (n : Int) (rest : List UInt8) :
    digitRun n (width ++ c :: rest) = .ok (width.foldl addDigit n, c :: rest) := by
  induction width generalizing n with
  | nil =>
    rw [List.nil_append, digitRun, hc]
    rfl
  | cons d width ih =>
    rw [List.forall_mem_cons] at hWidth
    rw [List.cons_append, digitRun, if_pos hWidth.1, ih hWidth.2]
    rfl

theorem fetchSign_eq {left : Bool} {s : List UInt8} {c : UInt8} (hHead : s.head? = some c)
    (hMinus : left = false → c ≠ minus) : fetchSign ((if left then [minus] else []) ++ s) = .ok (left, s) := by
  cases left with
  | true => rfl
  | false =>
    obtain ⟨d, rfl⟩ := List.head?_eq_some_iff.mp hHead
    change Except.ok (if c = minus then (true, d) else (false, c :: d)) = _
    rw [if_neg (hMinus rfl)]

theorem ne_minus_of_isDigit {c : UInt8} (h : isDigit c = true) : c ≠ minus := by
  rintro rfl
  exact absurd h (by decide)

section Specifications
variable {left : Bool} {width : List UInt8} {c : UInt8}

theorem fetchDigit_eq (h : Follows left width c) (rest : List UInt8) :
    fetchDigit ((if left then [minus] else []) ++ (width ++ c :: rest)) = .ok (widthValue left width, c :: rest) := by
  have hSign : fetchSign ((if left then [minus] else []) ++ (width ++ c :: rest)) = .ok (left, width ++ c :: rest) := by
    cases width with
    | nil => exact fetchSign_eq rfl fun hLeft => h.notMinus hLeft rfl
    | cons d width => exact fetchSign_eq rfl fun _ => ne_minus_of_isDigit (h.digits d List.mem_cons_self)
  rw [fetchDigit, hSign, ok_bind]
  simp only
  rw [digitRun_eq h.digits h.notDigit, ok_bind]
  rfl

end Specifications

section Steps
variable (v : VaList) (fuel ap : Nat)

theorem vprintfLoop_end (rest : List UInt8) : vprintfLoop v (fuel + 1) (0 :: rest) ap = .ok [] := rfl

theorem vprintfLoop_past : vprintfLoop v (fuel + 1) [] ap = .error .outOfBounds := rfl

theorem vprintfLoop_literal {c : UInt8} (hNul : c ≠ 0) (hPercent : c ≠ percent) (rest : List UInt8) :
    vprintfLoop v (fuel + 1) (c :: rest) ap = (do return c :: (← vprintfLoop v fuel rest ap)) := by
  rw [vprintfLoop, deref, ok_bind, if_neg hNul, if_neg hPercent]
  rfl

theorem vprintfLoop_spec {left : Bool} {width : List UInt8} {c : UInt8} (h : Follows left width c) (rest : List UInt8) :
    vprintfLoop v (fuel + 1) (opening left width ++ c :: rest) ap = (do
      let (out, ap) ← convert v ap (widthValue left width) c
      return out ++ (← vprintfLoop v fuel rest ap)) := by
  rw [opening, List.cons_append, List.append_assoc, vprintfLoop, deref, ok_bind, if_neg (by decide), if_pos rfl,
    List.tail_cons, fetchDigit_eq h]
  rfl

theorem vprintfLoop_pieces (ps : List Piece) (hValid : ∀ p ∈ ps, p.Valid) (rest : List UInt8) :
    ∃ out ap', Emits v ap ps out ap' ∧ vprintfLoop v (ps.length + fuel) (ps.flatMap Piece.spelled ++ rest) ap =
      (do return out ++ (← vprintfLoop v fuel rest ap')) := by
  induction ps generalizing ap with
  | nil =>
    refine ⟨[], ap, .nil, ?_⟩
    rw [List.length_nil, Nat.zero_add, List.flatMap_nil, List.nil_append]
    cases vprintfLoop v fuel rest ap <;> rfl
  | cons p ps ih =>
    rw [List.forall_mem_cons] at hValid
    rw [List.length_cons, Nat.succ_add, List.flatMap_cons, List.append_assoc]
    cases p with
    | literal c =>
      obtain ⟨out, ap', hEmits, hLoop⟩ := ih ap hValid.2
      refine ⟨c :: out, ap', .literal hEmits, ?_⟩
      rw [Piece.spelled, List.singleton_append, vprintfLoop_literal v _ ap hValid.1.1 hValid.1.2, hLoop]
      cases vprintfLoop v fuel rest ap' <;> rfl
    | spec left width c =>
      obtain ⟨⟨shown, next⟩, hConvert⟩ := (convert_returns v ap (widthValue left width) c).exists_ok
      obtain ⟨out, ap', hEmits, hLoop⟩ := ih next hValid.2
      refine ⟨shown ++ out, ap', .spec hConvert hEmits, ?_⟩
      rw [Piece.spelled, List.append_assoc, List.singleton_append, vprintfLoop_spec v _ ap hValid.1.2, hConvert,
        ok_bind]
      simp only
      rw [hLoop]
      cases vprintfLoop v fuel rest ap' with
      | error e => rfl
      | ok tail =>
        change Except.ok (shown ++ (out ++ tail)) = Except.ok (shown ++ out ++ tail)
        rw [List.append_assoc]

/-- An opening at the end takes the NUL for its conversion, and the loop goes on behind it. -/
theorem vprintfLoop_opening (left : Bool) {width : List UInt8} (hWidth : ∀ d ∈ width, isDigit d = true) :
    vprintfLoop v (fuel + 2) (opening left width ++ [0]) ap = .error .outOfBounds := by
  rw [vprintfLoop_spec v (fuel + 1) ap ⟨hWidth, by decide, fun _ _ => by decide⟩]
  obtain ⟨⟨shown, next⟩, hConvert⟩ := (convert_returns v ap (widthValue left width) 0).exists_ok
  rw [hConvert, ok_bind]
  simp only
  rw [vprintfLoop_past]
  rfl

end Steps

theorem length_le_spelled (ps : List Piece) : ps.length ≤ (ps.flatMap Piece.spelled).length := by
  induction ps with
  | nil => exact Nat.le_refl 0
  | cons p ps ih =>
    have hPos : 1 ≤ p.spelled.length := by
      cases p with
      | literal c => exact Nat.le_refl 1
      | spec left width c =>
        rw [Piece.spelled, List.length_append]
        exact Nat.le_add_left 1 _
    rw [List.length_cons, List.flatMap_cons, List.length_append]
    omega

theorem vprintf_pieces (v : VaList) (ps : List Piece) (hValid : ∀ p ∈ ps, p.Valid) :
    Scans v (ps.flatMap Piece.spelled) := by
  have hLength := length_le_spelled ps
  obtain ⟨fuel, hFuel⟩ : ∃ fuel, (ps.flatMap Piece.spelled ++ [0]).length + 1 = ps.length + (fuel + 1) := by
    refine ⟨(ps.flatMap Piece.spelled).length + 1 - ps.length, ?_⟩
    rw [List.length_append, List.length_singleton]
    omega
  obtain ⟨out, ap, hEmits, hLoop⟩ := vprintfLoop_pieces v (fuel + 1) 0 ps hValid [0]
  refine ⟨ps, out, ap, hValid, rfl, hEmits, ?_⟩
  rw [vprintf, hFuel, hLoop, vprintfLoop_end]
  change Except.ok (out ++ []) = _
  rw [List.append_nil]

theorem vprintf_truncated (v : VaList) {cs : List UInt8} (h : Truncated cs) :
    vprintf v (cs ++ [0]) = .error .outOfBounds := by
  obtain ⟨ps, left, width, hValid, hWidth, rfl⟩ := h
  have hLength := length_le_spelled ps
  obtain ⟨fuel, hFuel⟩ : ∃ fuel, (ps.flatMap Piece.spelled ++ opening left width ++ [0]).length + 1 =
      ps.length + (fuel + 2) := by
    refine ⟨(ps.flatMap Piece.spelled).length + (opening left width).length - ps.length, ?_⟩
    rw [List.length_append, List.length_append, List.length_singleton]
    omega
  obtain ⟨out, ap, _, hLoop⟩ := vprintfLoop_pieces v (fuel + 2) 0 ps hValid (opening left width ++ [0])
  rw [vprintf, hFuel, List.append_assoc, hLoop, vprintfLoop_opening v fuel ap left hWidth]
  rfl

theorem digits_split (s : List UInt8) : ∃ width rest, s = width ++ rest ∧ (∀ d ∈ width, isDigit d = true) ∧
    ∀ c tail, rest = c :: tail → isDigit c = false := by
  induction s with
  | nil =>
    refine ⟨[], [], rfl, ?_, ?_⟩
    · simp
    · simp
  | cons c s ih =>
    cases hDigit : isDigit c with
    | true =>
      obtain ⟨width, rest, hSplit, hWidth, hRest⟩ := ih
      refine ⟨c :: width, rest, ?_, List.forall_mem_cons.mpr ⟨hDigit, hWidth⟩, hRest⟩
      rw [hSplit, List.cons_append]
    | false =>
      refine ⟨[], c :: s, rfl, ?_, ?_⟩
      · simp
      · rintro _ _ ⟨⟩
        exact hDigit

/-- Behind a percent sign there is an opening, and behind that the end or a character that follows it. -/
theorem opening_split (s : List UInt8) : ∃ left width rest, percent :: s = opening left width ++ rest ∧
    (∀ d ∈ width, isDigit d = true) ∧ ∀ c tail, rest = c :: tail → Follows left width c := by
  by_cases hMinus : ∃ s', s = minus :: s'
  · obtain ⟨s', rfl⟩ := hMinus
    obtain ⟨width, rest, rfl, hWidth, hRest⟩ := digits_split s'
    exact ⟨true, width, rest, rfl, hWidth, fun c tail hTail => ⟨hWidth, hRest c tail hTail, by simp⟩⟩
  · obtain ⟨width, rest, rfl, hWidth, hRest⟩ := digits_split s
    refine ⟨false, width, rest, rfl, hWidth, fun c tail hTail => ⟨hWidth, hRest c tail hTail, ?_⟩⟩
    rintro _ rfl rfl
    exact hMinus ⟨tail, hTail⟩

/-- The format is a sequence of valid pieces, or ends inside a specification. -/
def Read (cs : List UInt8) : Prop :=
  (∃ ps : List Piece, (∀ p ∈ ps, p.Valid) ∧ cs = ps.flatMap Piece.spelled) ∨ Truncated cs

theorem Read.cons {p : Piece} {cs : List UInt8} (hp : p.Valid) (h : Read cs) : Read (p.spelled ++ cs) := by
  obtain ⟨ps, hValid, rfl⟩ | ⟨ps, left, width, hValid, hWidth, rfl⟩ := h
  · exact .inl ⟨p :: ps, List.forall_mem_cons.mpr ⟨hp, hValid⟩, List.flatMap_cons.symm⟩
  · refine .inr ⟨p :: ps, left, width, List.forall_mem_cons.mpr ⟨hp, hValid⟩, hWidth, ?_⟩
    rw [List.flatMap_cons, List.append_assoc]

theorem read_of_nonzero (cs : List UInt8) (hNul : ∀ c ∈ cs, c ≠ 0) : Read cs := by
  induction hLength : cs.length using Nat.strong_induction_on generalizing cs with
  | _ n ih =>
    cases cs with
    | nil => exact .inl ⟨[], by simp, rfl⟩
    | cons c cs =>
      by_cases hPercent : c = percent
      · obtain rfl := hPercent
        obtain ⟨left, width, rest, hSplit, hWidth, hRest⟩ := opening_split cs
        cases rest with
        | nil => exact .inr ⟨[], left, width, by simp, hWidth, by rw [hSplit, List.append_nil]; rfl⟩
        | cons d rest =>
          have hShort : rest.length < n := by
            rw [← hLength, hSplit, List.length_append, List.length_cons]
            omega
          rw [hSplit] at hNul ⊢
          rw [List.forall_mem_append, List.forall_mem_cons] at hNul
          have hRead := Read.cons (p := .spec left width d) ⟨hNul.2.1, hRest d rest rfl⟩
            (ih rest.length hShort rest hNul.2.2 rfl)
          rwa [Piece.spelled, List.append_assoc] at hRead
      · rw [List.forall_mem_cons] at hNul
        have hShort : cs.length < n := by
          rw [← hLength, List.length_cons]
          omega
        exact Read.cons (p := .literal c) ⟨hNul.1, hPercent⟩ (ih cs.length hShort cs hNul.2 rfl)

theorem not_scans_of_error {v : VaList} {cs : List UInt8} {e : Stop} (h : vprintf v (cs ++ [0]) = .error e) :
    ¬Scans v cs := by
  rintro ⟨ps, out, ap, _, _, _, hReturns⟩
  rw [h] at hReturns
  cases hReturns

/-- The scanner stays in the format exactly if the format does not end inside a specification. -/
theorem vprintf_scans_iff (v : VaList) (cs : List UInt8) (hNul : ∀ c ∈ cs, c ≠ 0) :
    Scans v cs ↔ ¬Truncated cs := by
  constructor
  · intro hScans hTruncated
    exact not_scans_of_error (vprintf_truncated v hTruncated) hScans
  · intro hComplete
    obtain ⟨ps, hValid, rfl⟩ := (read_of_nonzero cs hNul).resolve_right hComplete
    exact vprintf_pieces v ps hValid

def zeroArguments : VaList := ⟨fun _ => 0, fun _ => 0, fun _ => ⟨0, rfl⟩⟩

theorem vprintf_scans_complete : Scans zeroArguments (chars "cpu%-4d: 100%%") := by
  have hNul : (chars "cpu%-4d: 100%%").all (fun c => decide (c ≠ 0)) = true := by decide
  refine (vprintf_scans_iff zeroArguments _ fun c hc => of_decide_eq_true (List.all_eq_true.mp hNul c hc)).mpr ?_
  intro hTruncated
  exact absurd (vprintf_truncated zeroArguments hTruncated) (by decide)

example : vprintf zeroArguments (chars "cpu%-4d: 100%%" ++ [0]) = .ok (chars "cpu0   : 100%") := by decide

/-- A format that ends in a percent sign, behind a minus sign or behind digits is read beyond its NUL. -/
theorem vprintf_overruns :
    (vprintf zeroArguments (chars "100%" ++ [0]) = .error .outOfBounds ∧ ¬Scans zeroArguments (chars "100%")) ∧
    (vprintf zeroArguments (chars "%-" ++ [0]) = .error .outOfBounds ∧ ¬Scans zeroArguments (chars "%-")) ∧
    (vprintf zeroArguments (chars "%08" ++ [0]) = .error .outOfBounds ∧ ¬Scans zeroArguments (chars "%08")) := by
  have hPercent : vprintf zeroArguments (chars "100%" ++ [0]) = .error .outOfBounds := by decide
  have hMinus : vprintf zeroArguments (chars "%-" ++ [0]) = .error .outOfBounds := by decide
  have hDigits : vprintf zeroArguments (chars "%08" ++ [0]) = .error .outOfBounds := by decide
  exact ⟨⟨hPercent, not_scans_of_error hPercent⟩, ⟨hMinus, not_scans_of_error hMinus⟩,
    ⟨hDigits, not_scans_of_error hDigits⟩⟩

end HyperPoc.Printf
