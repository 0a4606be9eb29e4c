import Logo.Decimal.Rounding

/-!
Finite numbers of the 64-bit binary format, taken apart into sign, significand and scale.
-/
namespace Logo.Decimal

/-- The number `significand * 2 ^ scale / 2 ^ 1074`, with its sign. -/
structure Dyadic where
  negative : Bool
  significand : Nat
  scale : Nat
deriving DecidableEq, Repr

namespace Dyadic

/-- The codes from this one on do not stand for finite numbers. -/
def finiteCodes : Nat := 0x7FF <<< 52

/-- The number whose code without the sign is `code`. -/
def ofCode (negative : Bool) (code : Nat) : Dyadic :=
  let scale := code >>> 52 - 1
  ⟨negative, code - scale <<< 52, scale⟩

def code (d : Dyadic) : Nat := d.scale <<< 52 + d.significand

theorem code_ofCode (negative : Bool) (n : Nat) : (ofCode negative n).code = n := by
  simp only [ofCode, code]
  omega

def ofFloat? (x : Float) : Option Dyadic :=
  let bits := x.toBits.toNat
  let code := bits % 1 <<< 63
  if code < finiteCodes then some (ofCode (1 <<< 63 ≤ bits) code) else none

def toFloat (d : Dyadic) : Float :=
  Float.ofBits (.ofNat ((if d.negative then 1 <<< 63 else 0) + d.code))

/-- The number nearest to `num / den`, if it is in range. A tie goes to the even significand. -/
def nearest? (negative : Bool) (num den : Nat) : Option Dyadic :=
  let units := num <<< 1074
  let scale := (units / den).log2 - 52
  let code := scale <<< 52 + roundDiv .toEven units (den <<< scale)
  if code < finiteCodes then some (ofCode negative code) else none

end Dyadic

end Logo.Decimal
