import Logo.Decimal.Shortest

/-!
Writing numbers in decimal notation.
-/
namespace Logo.Decimal

/-- How the shortest decimal for a number is laid out. -/
structure Format where
  /-- Which of two equally near and equally short decimals is written. -/
  tie : Tie
  /-- Whether a number with this exponent of its first digit is written without an exponent. -/
  positional : Int → Bool
  /-- Follows whole numbers that are written without an exponent. -/
  wholeMark : String

def signText (negative : Bool) : String := if negative then "-" else ""

def zeros (n : Nat) : List Char := List.replicate n '0'

def digitsOf (n : Nat) : List Char := Nat.toDigits 10 n

/-- The digits with a point after the first `whole` of them. -/
def pointAfter (whole : Nat) (digits : List Char) : String :=
  String.ofList (digits.take whole ++ '.' :: digits.drop whole)

namespace Scaled

/-- The exponent of the first digit. -/
def leading (s : Scaled) : Int := (digitsOf s.digits).length - 1 + s.exponent

def positional (wholeMark : String) (s : Scaled) : String :=
  let digits := digitsOf s.digits
  if 0 ≤ s.exponent then String.ofList (digits ++ zeros s.exponent.toNat) ++ wholeMark
  else if 0 ≤ s.leading then pointAfter (s.leading.toNat + 1) digits
  else pointAfter 1 (zeros (-s.leading).toNat ++ digits)

/-- The sign of the exponent is always written. -/
def scientific (s : Scaled) : String :=
  let digits := digitsOf s.digits
  let mantissa := if digits.length = 1 then String.ofList digits else pointAfter 1 digits
  mantissa ++ "e" ++ (if s.leading < 0 then "-" else "+") ++
    String.ofList (digitsOf s.leading.natAbs)

end Scaled

/-- The text of a finite number. -/
def Format.write (format : Format) (d : Dyadic) : String :=
  signText d.negative ++
    if d.significand = 0 then "0" ++ format.wholeMark
    else
      let s := d.shortest format.tie
      if format.positional s.leading then s.positional format.wholeMark else s.scientific

/-- Text with exactly `places` decimal places, where `places` is not 0. The exact value is
rounded, and a tie goes to the even last digit. -/
def Dyadic.fixed (places : Nat) (d : Dyadic) : String :=
  let n := roundDiv .toEven (d.significand <<< d.scale * Nat.pow 10 places) (1 <<< 1074)
  let digits := digitsOf n
  let padded := zeros (places + 1 - digits.length) ++ digits
  signText d.negative ++ pointAfter (padded.length - places) padded

end Logo.Decimal
