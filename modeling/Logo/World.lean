import Logo.DrawEvent
import Logo.Registry
import Logo.Turtle

/-!
What performing an instruction can change.
-/
namespace Logo

structure World where
  turtle : Turtle := {}
  pen : Pen := {}
  log : DrawLog := #[]
  /-- The number for the next entry of the log that takes one. -/
  nextId : Nat := 0
  registry : Registry := .primitives
  bindings : Bindings := {}

namespace World

/-- Moves the turtle, along a line if the pen is down. -/
def move (world : World) (distance : Int64) : World :=
  let turtle := world.turtle.advance distance.toFloat
  if world.pen.down then
    let line := DrawEvent.line world.nextId world.turtle.x world.turtle.y turtle.x turtle.y
    { world with turtle, log := world.log.push line, nextId := world.nextId + 1 }
  else { world with turtle }

def turn (recorded : Bool) (world : World) (angle : Int64) : World :=
  let change := angle.toFloat
  let turtle := world.turtle.turn change
  if recorded then
    let entry := DrawEvent.turn world.nextId change
    { world with turtle, log := world.log.push entry, nextId := world.nextId + 1 }
  else { world with turtle }

def wait (world : World) (seconds : Int64) : World :=
  { world with log := world.log.push (.wait seconds) }

def setPen (world : World) (down : Bool) : World := { world with pen := ⟨down⟩ }

/-- Wipes the log and puts turtle and pen back. Numbers are not used again. -/
def clear (world : World) : World := { world with turtle := {}, pen := {}, log := #[] }

end World

end Logo
