import HyperPoc.Basic

/-! # The register maps of the trapped interrupt controller

The handlers switch over the offset of an access. A case that names a range of registers takes every
offset from the first byte of its first to the first byte of its last register, aligned or not.
-/
namespace HyperPoc.Vgic
set_option autoImplicit false

def gicrStride : Nat := 0x20000

inductive GicdReg
  | ctlr
  | typer
  | iidr
  | typer2
  | igroupr (n : Nat)
  | isenabler (n : Nat)
  | icenabler (n : Nat)
  | ispendr (n : Nat)
  | icpendr (n : Nat)
  | isactiver (n : Nat)
  | icactiver (n : Nat)
  | ipriorityr (n : Nat)
  | itargetsr (n : Nat)
  | icfgr (n : Nat)
  | irouter (n : Nat)
  deriving DecidableEq

def gicdReg (offset : Nat) : Option GicdReg :=
  if offset = 0x0 then some .ctlr
  else if offset = 0x4 then some .typer
  else if offset = 0x8 then some .iidr
  else if offset = 0xc then some .typer2
  else if 0x80 ≤ offset ∧ offset ≤ 0xfc then some (.igroupr ((offset - 0x80) / 4))
  else if 0x100 ≤ offset ∧ offset ≤ 0x17c then some (.isenabler ((offset - 0x100) / 4))
  else if 0x180 ≤ offset ∧ offset ≤ 0x1fc then some (.icenabler ((offset - 0x180) / 4))
  else if 0x200 ≤ offset ∧ offset ≤ 0x27c then some (.ispendr ((offset - 0x200) / 4))
  else if 0x280 ≤ offset ∧ offset ≤ 0x2fc then some (.icpendr ((offset - 0x280) / 4))
  else if 0x300 ≤ offset ∧ offset ≤ 0x37c then some (.isactiver ((offset - 0x300) / 4))
  else if 0x380 ≤ offset ∧ offset ≤ 0x3fc then some (.icactiver ((offset - 0x380) / 4))
  else if 0x400 ≤ offset ∧ offset ≤ 0x7f8 then some (.ipriorityr ((offset - 0x400) / 4))
  else if 0x800 ≤ offset ∧ offset ≤ 0xbf8 then some (.itargetsr ((offset - 0x800) / 4))
  else if 0xc00 ≤ offset ∧ offset ≤ 0xcfc then some (.icfgr ((offset - 0xc00) / 4))
  else if 0x6100 ≤ offset ∧ offset ≤ 0x7fd8 then some (.irouter ((offset - 0x6000) / 8))
  else none

inductive GicrReg
  | ctlr
  | iidr
  | typer
  | waker
  | igroupr0
  | isenabler0
  | icenabler0
  | ispendr0
  | icpendr0
  | isactiver0
  | icactiver0
  | ipriorityr
  | icfgr0
  | igrpmodr0
  deriving DecidableEq

def gicrReg (offset : Nat) : Option GicrReg :=
  if offset = 0x0 then some .ctlr
  else if offset = 0x4 then some .iidr
  else if offset = 0x8 then some .typer
  else if offset = 0x14 then some .waker
  else if offset = 0x10080 then some .igroupr0
  else if offset = 0x10100 then some .isenabler0
  else if offset = 0x10180 then some .icenabler0
  else if offset = 0x10200 then some .ispendr0
  else if offset = 0x10280 then some .icpendr0
  else if offset = 0x10300 then some .isactiver0
  else if offset = 0x10380 then some .icactiver0
  else if 0x10400 ≤ offset ∧ offset ≤ 0x1041c then some .ipriorityr
  else if offset = 0x10c00 then some .icfgr0
  else if offset = 0x10d00 then some .igrpmodr0
  else none

/-- First byte and number of bytes of the register an access is taken for. -/
def GicdReg.Covers (offset : Nat) : GicdReg → Prop
  | .ctlr => offset = 0x0
  | .typer => offset = 0x4
  | .iidr => offset = 0x8
  | .typer2 => offset = 0xc
  | .igroupr n => 0x80 + 4 * n ≤ offset ∧ offset < 0x80 + 4 * n + 4 ∧ n < 32
  | .isenabler n => 0x100 + 4 * n ≤ offset ∧ offset < 0x100 + 4 * n + 4 ∧ n < 32
  | .icenabler n => 0x180 + 4 * n ≤ offset ∧ offset < 0x180 + 4 * n + 4 ∧ n < 32
  | .ispendr n => 0x200 + 4 * n ≤ offset ∧ offset < 0x200 + 4 * n + 4 ∧ n < 32
  | .icpendr n => 0x280 + 4 * n ≤ offset ∧ offset < 0x280 + 4 * n + 4 ∧ n < 32
  | .isactiver n => 0x300 + 4 * n ≤ offset ∧ offset < 0x300 + 4 * n + 4 ∧ n < 32
  | .icactiver n => 0x380 + 4 * n ≤ offset ∧ offset < 0x380 + 4 * n + 4 ∧ n < 32
  | .ipriorityr n => 0x400 + 4 * n ≤ offset ∧ offset < 0x400 + 4 * n + 4 ∧ n < 255
  | .itargetsr n => 0x800 + 4 * n ≤ offset ∧ offset < 0x800 + 4 * n + 4 ∧ n < 255
  | .icfgr n => 0xc00 + 4 * n ≤ offset ∧ offset < 0xc00 + 4 * n + 4 ∧ n < 64
  | .irouter n => 0x6000 + 8 * n ≤ offset ∧ offset < 0x6000 + 8 * n + 8 ∧ 32 ≤ n ∧ n < 1020

theorem eq_some_cases {α : Type} {c : Prop} [Decidable c] {a r : α} {rest : Option α}
    (h : (if c then some a else rest) = some r) : c ∧ a = r ∨ ¬c ∧ rest = some r := by
  rcases Decidable.em c with hc | hc
  · rw [if_pos hc, Option.some.injEq] at h
    exact .inl ⟨hc, h⟩
  · rw [if_neg hc] at h
    exact .inr ⟨hc, h⟩

theorem gicdReg_covers {offset : Nat} {r : GicdReg} (h : gicdReg offset = some r) : r.Covers offset := by
  unfold gicdReg at h
  -- one round for each case of the switch
  iterate 15
    obtain ⟨hOffset, rfl⟩ | ⟨_, h⟩ := eq_some_cases h
    · rw [GicdReg.Covers]
      omega
  cases h

section
variable {n : Nat}

theorem gicdReg_isenabler (hn : n < 32) : gicdReg (0x100 + 4 * n) = some (.isenabler n) := by
  have hIndex : (0x100 + 4 * n - 0x100) / 4 = n := by omega
  unfold gicdReg
  iterate 5 rw [if_neg (by omega)]
  rw [if_pos (by omega), hIndex]

theorem gicdReg_icenabler (hn : n < 32) : gicdReg (0x180 + 4 * n) = some (.icenabler n) := by
  have hIndex : (0x180 + 4 * n - 0x180) / 4 = n := by omega
  unfold gicdReg
  iterate 6 rw [if_neg (by omega)]
  rw [if_pos (by omega), hIndex]

theorem gicdReg_ipriorityr (hn : n < 255) : gicdReg (0x400 + 4 * n) = some (.ipriorityr n) := by
  have hIndex : (0x400 + 4 * n - 0x400) / 4 = n := by omega
  unfold gicdReg
  iterate 11 rw [if_neg (by omega)]
  rw [if_pos (by omega), hIndex]

theorem gicdReg_itargetsr (hn : n < 255) : gicdReg (0x800 + 4 * n) = some (.itargetsr n) := by
  have hIndex : (0x800 + 4 * n - 0x800) / 4 = n := by omega
  unfold gicdReg
  iterate 12 rw [if_neg (by omega)]
  rw [if_pos (by omega), hIndex]

theorem gicrReg_ipriorityr (hn : n < 8) : gicrReg (0x10400 + 4 * n) = some .ipriorityr := by
  unfold gicrReg
  iterate 11 rw [if_neg (by omega)]
  rw [if_pos (by omega)]

end

end HyperPoc.Vgic
