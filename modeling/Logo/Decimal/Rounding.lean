/-!
Division with rounding to the nearest whole number.
-/
namespace Logo.Decimal

/-- Which neighbour of a number halfway between two whole numbers is taken. -/
inductive Tie where
  | toEven
  | up
deriving DecidableEq, Repr

/-- Whether a tie above `below` goes to its successor. -/
def Tie.raises (tie : Tie) (below : Nat) : Bool :=
  match tie with
  | toEven => below % 2 == 1
  | up => true

def roundDiv (tie : Tie) (num den : Nat) : Nat :=
  let below := num / den
  let twice := 2 * (num % den)
  if twice < den then below
  else if den < twice then below + 1
  else if tie.raises below then below + 1
  else below

end Logo.Decimal
