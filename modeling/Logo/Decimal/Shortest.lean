import Logo.Decimal.Dyadic

/-!
The shortest decimal that reads back as a given binary number. All numbers that round to it
lie between the points halfway to its two neighbours; of the decimal grids the coarsest with a
point in there is taken, and of its points there the nearest one.
-/
namespace Logo.Decimal

/-- The number `digits * 10 ^ exponent`. -/
structure Scaled where
  digits : Nat
  exponent : Int
deriving DecidableEq, Repr

/-- The numbers from `low` to `high` that round to `value`, in units of a power of ten. The
two ends belong to it if it is `closed`. -/
structure Interval where
  low : Nat
  value : Nat
  high : Nat
  closed : Bool
deriving DecidableEq, Repr

namespace Interval

def contains (interval : Interval) (n : Nat) : Bool :=
  if interval.closed then interval.low ≤ n && n ≤ interval.high
  else interval.low < n && n < interval.high

/-- The point of the grid of multiples of `unit` that lies in the interval and is nearest to
the value, counted in units. -/
def pointOn (tie : Tie) (unit : Nat) (interval : Interval) : Option Nat :=
  let below := interval.value / unit
  let above := below + 1
  match interval.contains (below * unit), interval.contains (above * unit) with
  | true, true => some (roundDiv tie interval.value unit)
  | true, false => some below
  | false, true => some above
  | false, false => none

/-- How many zeros a whole number from `first` to `last` can end in, where `fuel` is no less than
the zeros that there is room for. -/
def zerosWithin (first last : Nat) : Nat → Nat
  | 0 => 0
  | fuel + 1 =>
    if last / 10 * 10 < first then 0
    else zerosWithin ((first + 9) / 10) (last / 10) fuel + 1

/-- The coarsest grid is found from the points of one that is finer than the interval is long:
those of them that end in zeros lie on coarser grids too. -/
def shortest (tie : Tie) (interval : Interval) : Scaled :=
  let fine := (interval.high - interval.low).log2 * 3 / 10
  let unit := Nat.pow 10 fine
  let first := if interval.closed then (interval.low + unit - 1) / unit else interval.low / unit + 1
  let last := if interval.closed then interval.high / unit else (interval.high - 1) / unit
  let n := fine + zerosWithin first last last.log2
  match interval.pointOn tie (Nat.pow 10 n) with
  | some digits => ⟨digits, n⟩
  | none => ⟨interval.value, 0⟩

end Interval

namespace Dyadic

/-- How many decimal places a quarter of the last binary place needs. -/
def places (d : Dyadic) : Nat := 1076 - d.scale

/-- The neighbour below a power of two is only half as far away as the one above, unless both
are spaced as densely as numbers get. -/
def interval (d : Dyadic) : Interval :=
  let quarter := Nat.pow 5 d.places <<< (d.scale - 1076)
  let below := if d.significand = 1 <<< 52 ∧ d.scale ≠ 0 then 1 else 2
  { low := (4 * d.significand - below) * quarter
    value := 4 * d.significand * quarter
    high := (4 * d.significand + 2) * quarter
    closed := d.significand % 2 == 0 }

/-- For numbers other than zero. -/
def shortest (tie : Tie) (d : Dyadic) : Scaled :=
  let interval := d.interval
  let found := interval.shortest tie
  { found with exponent := found.exponent - d.places }

end Dyadic

end Logo.Decimal
