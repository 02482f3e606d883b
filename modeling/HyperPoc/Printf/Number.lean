import HyperPoc.Basic
import HyperPoc.Library.Numeral
import Mathlib.Algebra.Group.Int.Defs

/-! # Printing a number

`printiu64` fills a local buffer from its end. A C string is the list of bytes from its pointer to the end
of the object it lies in, and a read or write outside the object is a stop. The loop over the digits is a
recursion on the cursor, which every turn moves.
-/
namespace HyperPoc.Printf
open Library.Numeral Library.Run
set_option autoImplicit false

def chars (s : String) : List UInt8 := s.toList.map fun c => UInt8.ofNat c.toNat

def i32 (n : Int) : Int := (n + 2 ^ 31) % 2 ^ 32 - 2 ^ 31

def i64 (n : Int) : Int := (n + 2 ^ 63) % 2 ^ 64 - 2 ^ 63

/-- The conversion `(u64)n`. -/
def toU64 (n : Int) : Nat := (n % 2 ^ 64).toNat

def space : UInt8 := 0x20

def minus : UInt8 := 0x2d

def strlen : List UInt8 → Outcome Nat
  | [] => .error .outOfBounds
  | c :: s => if c ≠ 0 then do return (← strlen s) + 1 else return 0

/-- What `uart_puts` sends. -/
def uartPuts : List UInt8 → Outcome (List UInt8)
  | [] => .error .outOfBounds
  | c :: s => if c ≠ 0 then do return c :: (← uartPuts s) else return []

structure Buffer where
  bytes : List UInt8
  cur : Nat

/-- The assignment `*--cur = c`. -/
def Buffer.push (b : Buffer) (c : UInt8) : Outcome Buffer :=
  match b.cur with
  | 0 => .error .outOfBounds
  | cur + 1 => if cur < b.bytes.length then .ok ⟨b.bytes.set cur c, cur⟩ else .error .outOfBounds

def digitTable : List UInt8 := chars "0123456789abcdef" ++ [0]

def digitChar (i : Nat) : Outcome UInt8 :=
  match digitTable[i]? with
  | some c => .ok c
  | none => .error .outOfBounds

def digitLoop (base : Nat) (bytes : List UInt8) : (cur unum : Nat) → Outcome Buffer
  | 0, _ => .error .outOfBounds
  | cur + 1, unum => do
    let c ← digitChar (unum % base)
    let b ← Buffer.push ⟨bytes, cur + 1⟩ c
    let unum := unum / base
    if unum ≠ 0 then digitLoop base b.bytes cur unum else return b

/-- The loop `while(digit-- > len) uart_putc(' ')` from a `digit` that is not negative, with the value it
leaves in `digit`. -/
def padLoop (len : Nat) : Nat → List UInt8 × Int
  | 0 => ([], -1)
  | digit + 1 =>
    if len < digit + 1 then
      let (out, left) := padLoop len digit
      (space :: out, left)
    else ([], digit)

def print0x : Nat := 1

def bufSize : Nat := 65

def isNegative (num : Int) (sign : Bool) : Bool := sign && num < 0

def magnitude (num : Int) (sign : Bool) : Nat :=
  if isNegative num sign then u64 (toU64 (i64 (-i64 (num + 1))) + 1) else toU64 num

def Buffer.pushZeroX (b : Buffer) (opt : Nat) : Outcome Buffer :=
  if opt &&& print0x ≠ 0 then do
    let b ← b.push 0x78
    b.push 0x30
  else return b

def Buffer.pushSign (b : Buffer) (neg : Bool) : Outcome Buffer := if neg then b.push minus else return b

/-- The part of `printiu64` that writes the buffer. -/
def fillBuffer (num : Int) (base : Nat) (sign : Bool) (opt : Nat) : Outcome Buffer := do
  let b ← digitLoop base (List.replicate bufSize 0) (bufSize - 1) (magnitude num sign)
  let b ← b.pushZeroX opt
  b.pushSign (isNegative num sign)

/-- The part of `printiu64` that sends the string at `cur`. -/
def sendPadded (cur : List UInt8) (digit : Int) : Outcome (List UInt8) := do
  let len ← strlen cur
  let (before, digit) := if digit > 0 then padLoop len digit.toNat else ([], digit)
  let shown ← uartPuts cur
  -- a negative `digit` that stays negative pads nothing
  let after := if digit < 0 then (padLoop len (i32 (-digit)).toNat).1 else []
  return before ++ shown ++ after

def printiu64 (num : Int) (base : Nat) (sign : Bool) (digit : Int) (opt : Nat) : Outcome (List UInt8) := do
  let b ← fillBuffer num base sign opt
  sendPadded (b.bytes.drop b.cur) digit

section Strings
variable {s : List UInt8}

theorem strlen_of_nonzero (rest : List UInt8) (h : ∀ c ∈ s, c ≠ 0) : strlen (s ++ 0 :: rest) = .ok s.length := by
  induction s with
  | nil => rfl
  | cons c s ih =>
    rw [List.forall_mem_cons] at h
    rw [List.cons_append, strlen, if_pos h.1, ih h.2]
    rfl

theorem uartPuts_of_nonzero (rest : List UInt8) (h : ∀ c ∈ s, c ≠ 0) : uartPuts (s ++ 0 :: rest) = .ok s := by
  induction s with
  | nil => rfl
  | cons c s ih =>
    rw [List.forall_mem_cons] at h
    rw [List.cons_append, uartPuts, if_pos h.1, ih h.2]
    rfl

end Strings

/-- The buffer holds the string `s` at its cursor, closed by the NUL in its last byte. -/
structure Buffer.Holds (b : Buffer) (s : List UInt8) : Prop where
  bytes_eq : b.bytes = List.replicate b.cur 0 ++ (s ++ [0])
  size : b.cur + s.length + 1 = bufSize

theorem holds_empty : Buffer.Holds ⟨List.replicate bufSize 0, bufSize - 1⟩ [] := ⟨by decide, by decide⟩

theorem Buffer.Holds.push {b : Buffer} {s : List UInt8} (h : b.Holds s) (c : UInt8) (hRoom : s.length + 1 < bufSize) :
    ∃ b', b.push c = .ok b' ∧ b'.cur + 1 = b.cur ∧ b'.Holds (c :: s) := by
  obtain ⟨bytes, cur⟩ := b
  obtain ⟨hBytes, hSize⟩ := h
  simp only at hBytes hSize
  cases cur with
  | zero => omega
  | succ cur =>
    refine ⟨⟨bytes.set cur c, cur⟩, ?_, rfl, ?_, ?_⟩
    · refine if_pos ?_
      simp only [hBytes, List.length_append, List.length_replicate]
      omega
    · -- the byte before the cursor is the last of the zeros
      change bytes.set cur c = List.replicate cur 0 ++ (c :: s ++ [0])
      rw [hBytes, List.replicate_succ', List.append_assoc, List.set_append_right _ _ (by rw [List.length_replicate]),
        List.length_replicate, Nat.sub_self]
      rfl
    · change cur + (c :: s).length + 1 = bufSize
      rw [List.length_cons]
      omega

theorem Buffer.Holds.pushZeroX {b : Buffer} {s : List UInt8} (h : b.Holds s) (opt : Nat) (hRoom : s.length ≤ 20) :
    ∃ b', b.pushZeroX opt = .ok b' ∧ b'.Holds ((if opt &&& print0x ≠ 0 then [0x30, 0x78] else []) ++ s) := by
  rw [Buffer.pushZeroX]
  split
  · obtain ⟨b₁, hPush, _, hHolds⟩ := h.push 0x78 (Nat.lt_of_le_of_lt (Nat.succ_le_succ hRoom) (by decide))
    obtain ⟨b₂, hPush', _, hHolds'⟩ := hHolds.push 0x30
      (Nat.lt_of_le_of_lt (Nat.succ_le_succ (Nat.succ_le_succ hRoom)) (by decide))
    exact ⟨b₂, by rw [hPush, ok_bind, hPush'], hHolds'⟩
  · exact ⟨b, rfl, h⟩

theorem Buffer.Holds.pushSign {b : Buffer} {s : List UInt8} (h : b.Holds s) (neg : Bool) (hRoom : s.length ≤ 22) :
    ∃ b', b.pushSign neg = .ok b' ∧ b'.Holds ((if neg then [minus] else []) ++ s) := by
  rw [Buffer.pushSign]
  split
  · obtain ⟨b', hPush, _, hHolds⟩ := h.push minus (Nat.lt_of_le_of_lt (Nat.succ_le_succ hRoom) (by decide))
    exact ⟨b', hPush, hHolds⟩
  · exact ⟨b, rfl, h⟩

theorem Buffer.Holds.drop {b : Buffer} {s : List UInt8} (h : b.Holds s) : b.bytes.drop b.cur = s ++ [0] := by
  rw [h.bytes_eq, List.drop_append_of_le_length (by rw [List.length_replicate]), List.drop_replicate, Nat.sub_self]
  rfl

def digitText (i : Nat) : UInt8 := digitTable.getD i 0

theorem digitChar_of_lt {i : Nat} (h : i < 16) : digitChar i = .ok (digitText i) := by
  interval_cases i <;> rfl

theorem digitText_ne_zero {i : Nat} (h : i < 16) : digitText i ≠ 0 := by
  interval_cases i <;> decide

theorem numeralText_ne_zero {base n : Nat} (hOne : 1 < base) (hBase : base ≤ 16) :
    ∀ c ∈ (numeral base n).map digitText, c ≠ 0 := by
  intro c hc
  obtain ⟨d, hd, rfl⟩ := List.mem_map.mp hc
  exact digitText_ne_zero (Nat.lt_of_lt_of_le ((isNumeral_numeral hOne).digit_lt d hd) hBase)

/-- The loop writes the numeral in front of what the buffer holds. The recursion on the cursor follows the
quotients, and the numeral has room left for its other digits at each. -/
theorem digitLoop_holds {base : Nat} (hOne : 1 < base) (hBase : base ≤ 16) (cur : Nat) (bytes s : List UInt8)
    (unum : Nat) (h : Buffer.Holds ⟨bytes, cur⟩ s) (hRoom : s.length + (numeral base unum).length < bufSize) :
    ∃ b, digitLoop base bytes cur unum = .ok b ∧ b.Holds ((numeral base unum).map digitText ++ s) := by
  induction cur generalizing bytes s unum with
  | zero =>
    have hSize := h.size
    have hPos := List.length_pos_iff.mpr (isNumeral_numeral (n := unum) hOne).nonempty
    simp only at hSize
    omega
  | succ cur ih =>
    have hDigit : digitChar (unum % base) = .ok (digitText (unum % base)) :=
      digitChar_of_lt (Nat.lt_of_lt_of_le (Nat.mod_lt _ (by omega)) hBase)
    have hPos := List.length_pos_iff.mpr (isNumeral_numeral (n := unum) hOne).nonempty
    obtain ⟨⟨bytes', cur'⟩, hPush, hCur, hHolds⟩ := h.push (digitText (unum % base)) (by omega)
    obtain rfl : cur' = cur := Nat.succ.inj hCur
    rw [digitLoop, hDigit, ok_bind, hPush, ok_bind]
    by_cases hLast : unum / base = 0
    · have hLt : unum < base := ((Nat.div_eq_zero_iff).mp hLast).resolve_left (by omega)
      refine ⟨⟨bytes', cur'⟩, if_neg (not_not_intro hLast), ?_⟩
      rw [Nat.mod_eq_of_lt hLt] at hHolds
      rw [numeral_of_lt hLt]
      exact hHolds
    · have hLe : base ≤ unum := (Nat.div_ne_zero_iff.mp hLast).2
      rw [numeral_of_le hOne hLe] at hRoom ⊢
      rw [List.length_append, List.length_singleton] at hRoom
      obtain ⟨b, hLoop, hDone⟩ := ih bytes' (digitText (unum % base) :: s) (unum / base) hHolds (by
        rw [List.length_cons]
        omega)
      refine ⟨b, (if_pos hLast).trans hLoop, ?_⟩
      rw [List.map_append, List.append_assoc]
      exact hDone

section Padding
variable (len : Nat)

theorem padLoop_out (digit : Nat) : (padLoop len digit).1 = List.replicate (digit - len) space := by
  induction digit with
  | zero => rw [padLoop, Nat.zero_sub, List.replicate_zero]
  | succ digit ih =>
    rw [padLoop]
    split
    · rename_i hLt
      rw [Nat.succ_sub (by omega), List.replicate_succ, ← ih]
    · rename_i hLe
      rw [Nat.sub_eq_zero_of_le (by omega), List.replicate_zero]

/-- After padding on the left `digit` is not negative, so that there is no padding on the right. -/
theorem padLoop_left (hLen : 0 < len) (digit : Nat) (hDigit : 0 < digit) : 0 ≤ (padLoop len digit).2 := by
  induction digit with
  | zero => omega
  | succ digit ih =>
    rw [padLoop]
    split
    · exact ih (by omega)
    · exact Int.natCast_nonneg digit

end Padding

def rightPadding (len : Nat) (digit : Int) : Nat := if digit < 0 then (i32 (-digit)).toNat - len else 0

/-- Padding on one side leaves no width for the other. -/
theorem sendPadded_eq {s : List UInt8} (hText : s ≠ []) (hZero : ∀ c ∈ s, c ≠ 0) (digit : Int) :
    sendPadded (s ++ [0]) digit = .ok (List.replicate (digit.toNat - s.length) space ++ s ++
      List.replicate (rightPadding s.length digit) space) := by
  have hLen : 0 < s.length := List.length_pos_iff.mpr hText
  rw [sendPadded, strlen_of_nonzero [] hZero, ok_bind, uartPuts_of_nonzero [] hZero]
  by_cases hPos : digit > 0
  · have hLeft : ¬(padLoop s.length digit.toNat).2 < 0 := Int.not_lt.mpr (padLoop_left s.length hLen _ (by omega))
    simp only [if_pos hPos, ok_bind, if_neg hLeft, padLoop_out]
    rw [rightPadding, if_neg (by omega)]
    rfl
  · simp only [if_neg hPos, ok_bind]
    rw [show digit.toNat = 0 by omega, Nat.zero_sub, rightPadding]
    split
    · rw [padLoop_out]
      rfl
    · rfl

def numberText (negative zeroX : Bool) (digits : List Nat) : List UInt8 :=
  (if negative then [minus] else []) ++ ((if zeroX then [0x30, 0x78] else []) ++ digits.map digitText)

section Filled
variable {base : Nat} (num : Int) (sign : Bool) (opt : Nat)

theorem magnitude_lt : magnitude num sign < 2 ^ 64 := by
  rw [magnitude, u64, toU64, toU64]
  split <;> omega

theorem length_numeral_magnitude (hBase : base = 10 ∨ base = 16) :
    (numeral base (magnitude num sign)).length ≤ 20 := by
  have hLt := magnitude_lt num sign
  obtain rfl | rfl := hBase
  · exact length_numeral_le (by decide) (by decide) (Nat.lt_of_lt_of_le hLt (by decide))
  · exact length_numeral_le (by decide) (by decide) (Nat.lt_of_lt_of_le hLt (by decide))

def printedText (base : Nat) : List UInt8 :=
  numberText (isNegative num sign) (opt &&& print0x ≠ 0) (numeral base (magnitude num sign))

/-- The digits, the prefix and the sign need at most 23 of the 64 bytes before the NUL. -/
theorem fillBuffer_holds (hBase : base = 10 ∨ base = 16) :
    ∃ b, fillBuffer num base sign opt = .ok b ∧ b.Holds (printedText num sign opt base) := by
  have hLength : ((numeral base (magnitude num sign)).map digitText).length ≤ 20 := by
    rw [List.length_map]
    exact length_numeral_magnitude num sign hBase
  have hOne : 1 < base := by omega
  obtain ⟨b, hLoop, hDigits⟩ := digitLoop_holds hOne (by omega) (bufSize - 1) (List.replicate bufSize 0) []
    (magnitude num sign) holds_empty (by
      rw [List.length_nil, Nat.zero_add]
      exact Nat.lt_of_le_of_lt (length_numeral_magnitude num sign hBase) (by decide))
  rw [List.append_nil] at hDigits
  obtain ⟨b', hZeroX, hPrefixed⟩ := hDigits.pushZeroX opt hLength
  obtain ⟨b'', hSign, hDone⟩ := hPrefixed.pushSign (isNegative num sign) (by
    rw [List.length_append]
    split
    · exact Nat.add_le_add_left hLength 2
    · exact Nat.add_le_add (Nat.zero_le 2) hLength)
  refine ⟨b'', ?_, ?_⟩
  · rw [fillBuffer, hLoop, ok_bind, hZeroX, ok_bind, hSign]
  · rw [printedText, numberText]
    simpa only [decide_eq_true_eq] using hDone

theorem printedText_ne_zero (hBase : base = 10 ∨ base = 16) : ∀ c ∈ printedText num sign opt base, c ≠ 0 := by
  rw [printedText, numberText]
  refine List.forall_mem_append.mpr ⟨?_, List.forall_mem_append.mpr
    ⟨?_, numeralText_ne_zero (by omega) (by omega)⟩⟩
  · split
    · exact List.forall_mem_singleton.mpr (by decide)
    · exact List.forall_mem_nil _
  · split
    · exact List.forall_mem_cons.mpr ⟨by decide, List.forall_mem_singleton.mpr (by decide)⟩
    · exact List.forall_mem_nil _

theorem printedText_ne_nil (hBase : base = 10 ∨ base = 16) : printedText num sign opt base ≠ [] := by
  have hOne : 1 < base := by omega
  have hDigits : (numeral base (magnitude num sign)).map digitText ≠ [] := by
    rw [Ne, List.map_eq_nil_iff]
    exact (isNumeral_numeral hOne).nonempty
  exact List.append_ne_nil_of_right_ne_nil _ (List.append_ne_nil_of_right_ne_nil _ hDigits)

theorem printiu64_eq (hBase : base = 10 ∨ base = 16) (digit : Int) :
    printiu64 num base sign digit opt = .ok
      (List.replicate (digit.toNat - (printedText num sign opt base).length) space ++ printedText num sign opt base ++
        List.replicate (rightPadding (printedText num sign opt base).length digit) space) := by
  obtain ⟨b, hFill, hHolds⟩ := fillBuffer_holds num sign opt hBase
  rw [printiu64, hFill, ok_bind, hHolds.drop]
  exact sendPadded_eq (printedText_ne_nil num sign opt hBase) (printedText_ne_zero num sign opt hBase) digit

/-- The most negative number has its magnitude too: one is added before the negation and after the
conversion. -/
theorem magnitude_value (hLow : -2 ^ 63 ≤ num) (hHigh : num < 2 ^ 63) :
    (if isNegative num sign then -(magnitude num sign : Int) else magnitude num sign) =
      if sign then num else num % 2 ^ 64 := by
  rw [magnitude]
  cases sign with
  | false =>
    simp only [isNegative, Bool.false_and, Bool.false_eq_true, if_false, toU64]
    omega
  | true =>
    simp only [isNegative, Bool.true_and, decide_eq_true_eq, if_true, toU64, u64, i64]
    split <;> omega

end Filled

/-- What is sent for a number: the digits are its canonical numeral, and spaces fill the width on the side
that the sign of the width names. -/
structure Exact (num : Int) (base : Nat) (sign : Bool) (digit : Int) (opt : Nat) (value : Nat)
    (digits : List Nat) (left right : Nat) (out : List UInt8) : Prop where
  numeral : IsNumeral base value digits
  value_eq : (if sign ∧ num < 0 then -(value : Int) else value) = if sign then num else num % 2 ^ 64
  out_eq : out = List.replicate left space ++ numberText (sign ∧ num < 0) (opt &&& print0x ≠ 0) digits ++
    List.replicate right space
  length : out.length = max digit.natAbs (numberText (sign ∧ num < 0) (opt &&& print0x ≠ 0) digits).length
  onLeft : left ≠ 0 → 0 < digit
  onRight : right ≠ 0 → digit < 0

theorem isNegative_eq (num : Int) (sign : Bool) : isNegative num sign = decide (sign ∧ num < 0) := by
  rw [isNegative, Bool.decide_and, Bool.decide_eq_true]

/-- The cursor stays in the buffer, since every write outside it would be a stop. -/
theorem printiu64_exact (num : Int) (base : Nat) (sign : Bool) (digit : Int) (opt : Nat)
    (hLow : -2 ^ 63 ≤ num) (hHigh : num < 2 ^ 63) (hBase : base = 10 ∨ base = 16)
    (hMin : -2 ^ 31 < digit) (hMax : digit < 2 ^ 31) :
    ∃ value digits left right out, printiu64 num base sign digit opt = .ok out ∧
      Exact num base sign digit opt value digits left right out := by
  have hOne : 1 < base := by omega
  have hText : printedText num sign opt base =
      numberText (sign ∧ num < 0) (opt &&& print0x ≠ 0) (numeral base (magnitude num sign)) := by
    rw [printedText, isNegative_eq]
  have hRight : rightPadding (printedText num sign opt base).length digit =
      (-digit).toNat - (printedText num sign opt base).length := by
    rw [rightPadding, i32]
    split <;> omega
  refine ⟨magnitude num sign, numeral base (magnitude num sign), digit.toNat - (printedText num sign opt base).length,
    rightPadding (printedText num sign opt base).length digit, _, printiu64_eq num sign opt hBase digit,
    ?_, ?_, ?_, ?_, ?_, ?_⟩
  · exact isNumeral_numeral hOne
  · rw [← magnitude_value num sign hLow hHigh, isNegative_eq]
    simp only [decide_eq_true_eq]
  · rw [hText]
  · rw [← hText, List.length_append, List.length_append, List.length_replicate, List.length_replicate, hRight]
    omega
  · omega
  · rw [hRight]
    omega

/-- The most negative number in a field of 25 columns on the left. -/
theorem printiu64_exact_min : ∃ value digits left right out, printiu64 (-2 ^ 63) 10 true (-25) 0 = .ok out ∧
    Exact (-2 ^ 63) 10 true (-25) 0 value digits left right out :=
  printiu64_exact _ _ _ _ _ (by decide) (by decide) (.inl rfl) (by decide) (by decide)

example : printiu64 (-2 ^ 63) 10 true (-25) 0 = .ok (chars "-9223372036854775808     ") := by decide

end HyperPoc.Printf
