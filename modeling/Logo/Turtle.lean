/-!
The turtle and its pen.
-/
namespace Logo

/-- A place and a heading in degrees. Turns add up; the heading is never reduced. -/
structure Turtle where
  x : Float := 0
  y : Float := 0
  angle : Float := 0

structure Pen where
  down : Bool := true
deriving DecidableEq, Repr

namespace Turtle

/-- The 64-bit number nearest to π/180. -/
def degree : Float := 0.017453292519943295

def advance (turtle : Turtle) (distance : Float) : Turtle :=
  let heading := turtle.angle * degree
  { turtle with
    x := turtle.x + heading.cos * distance
    y := turtle.y + heading.sin * distance }

def turn (turtle : Turtle) (change : Float) : Turtle :=
  { turtle with angle := turtle.angle + change }

end Turtle

end Logo
