import Logo.Json.Basic
import Logo.Token

/-!
Positions as JSON.
-/
namespace Logo.Position

def toJson (position : Position) : Json :=
  .object [("start", .integer position.start), ("end", .integer position.last)]

def ofJson? (json : Json) : Option Position := do
  match ← json.members? ["start", "end"] with
  | [start, last] => return ⟨← start.natural?, ← last.natural?⟩
  | _ => none

end Logo.Position
