/-!
Entries of the drawing log, in the order in which a picture is drawn from them.
-/
namespace Logo

inductive DrawEvent where
  | line (id : Nat) (x1 y1 x2 y2 : Float)
  | turn (id : Nat) (change : Float)
  | wait (seconds : Int64)

abbrev DrawLog := Array DrawEvent

/-- Pauses are not numbered. -/
def DrawEvent.id? : DrawEvent → Option Nat
  | line id _ _ _ _ => some id
  | turn id _ => some id
  | wait _ => none

end Logo
