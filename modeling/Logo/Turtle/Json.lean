import Logo.Json.Basic
import Logo.Turtle

/-!
Turtle and pen as JSON.
-/
namespace Logo

namespace Turtle

def toJson (turtle : Turtle) : Json :=
  .object [("x", .real turtle.x), ("y", .real turtle.y), ("angle", .real turtle.angle)]

def ofJson? (json : Json) : Option Turtle := do
  match ← json.members? ["x", "y", "angle"] with
  | [x, y, angle] => return ⟨← x.real?, ← y.real?, ← angle.real?⟩
  | _ => none

end Turtle

namespace Pen

def toJson (pen : Pen) : Json := .object [("down", .bool pen.down)]

def ofJson? (json : Json) : Option Pen := do
  match ← json.members? ["down"] with
  | [down] => return ⟨← down.bool?⟩
  | _ => none

end Pen

end Logo
