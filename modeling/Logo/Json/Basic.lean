import Logo.Decimal.Format

/-!
Documents of the data format JSON. Whole numbers that fit 64 bits are kept exactly; all
other numbers are 64-bit binary ones.
-/
namespace Logo

inductive Json where
  | null
  | bool (b : Bool)
  | integer (n : Int)
  | real (x : Float)
  | string (s : String)
  | array (items : List Json)
  | object (fields : List (String × Json))

instance : Inhabited Json := ⟨.null⟩

namespace Json

/-- The member of an object. Of several members of one name the last one counts. -/
def field? (name : String) : Json → Option Json
  | object fields => fields.reverse.lookup name
  | _ => none

def string? : Json → Option String
  | string s => some s
  | _ => none

def bool? : Json → Option Bool
  | bool b => some b
  | _ => none

def integer? : Json → Option Int
  | integer n => some n
  | _ => none

def items? : Json → Option (List Json)
  | array items => some items
  | _ => none

def fields? : Json → Option (List (String × Json))
  | object fields => some fields
  | _ => none

/-- A number without sign that fits 64 bits. -/
def natural? (json : Json) : Option Nat :=
  json.integer?.bind fun n => if 0 ≤ n ∧ n < UInt64.size then some n.toNat else none

/-- A number with sign that fits 64 bits. -/
def int64? (json : Json) : Option Int64 :=
  json.integer?.bind fun n =>
    if Int64.minValue.toInt ≤ n ∧ n ≤ Int64.maxValue.toInt then some (Int64.ofInt n) else none

/-- Whole numbers are numbers too. -/
def real? : Json → Option Float
  | real x => some x
  | integer n => (Decimal.Dyadic.nearest? (n < 0) n.natAbs 1).map (·.toFloat)
  | _ => none

/-- The members of the given names, whatever else there is, or the items of an array of as
many: the two ways in which a record of named fields is read. -/
def members? (names : List String) : Json → Option (List Json)
  | array items => if items.length = names.length then some items else none
  | json => names.mapM json.field?

end Json

end Logo
