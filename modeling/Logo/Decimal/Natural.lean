/-!
Natural numbers in decimal notation, ASCII digits only.
-/
namespace Logo.Decimal

def isDigit (c : Char) : Bool := '0' ≤ c && c ≤ '9'

def digitValue (c : Char) : Nat := c.toNat - '0'.toNat

/-- The number that the digits `cs` denote when they continue those of `n`. -/
def continueNatural (n : Nat) (cs : List Char) : Nat :=
  cs.foldl (fun n c => 10 * n + digitValue c) n

theorem le_continueNatural (n : Nat) (cs : List Char) : n ≤ continueNatural n cs := by
  induction cs generalizing n with
  | nil => exact Nat.le_refl n
  | cons c cs ih => exact Nat.le_trans (by omega) (ih (10 * n + digitValue c))

/-- Leading zeros are allowed; at least one digit is required. -/
def natural? (cs : List Char) : Option Nat :=
  if !cs.isEmpty && cs.all isDigit then some (continueNatural 0 cs) else none

end Logo.Decimal
