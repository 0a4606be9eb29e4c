import Logo.DrawEvent
import Logo.Json.Printer

/-!
The drawing log as a JSON document: a list of objects whose member `drawCommand` tells what
kind of entry each is.
-/
namespace Logo

namespace DrawEvent

def toJson : DrawEvent → Json
  | line id x1 y1 x2 y2 =>
    .object [("drawCommand", .string "drawLine"), ("id", .integer id), ("x1", .real x1),
      ("y1", .real y1), ("x2", .real x2), ("y2", .real y2)]
  | turn id change =>
    .object [("drawCommand", .string "rotate"), ("id", .integer id), ("angleChange", .real change)]
  | wait seconds =>
    .object [("drawCommand", .string "wait"), ("seconds", .integer seconds.toInt)]

/-- The names of the members that an entry of the kind has, in order. -/
def fieldNames : String → List String
  | "drawLine" => ["id", "x1", "y1", "x2", "y2"]
  | "rotate" => ["id", "angleChange"]
  | "wait" => ["seconds"]
  | _ => []

def ofFields? (kind : String) (values : List Json) : Option DrawEvent :=
  match kind, values with
  | "drawLine", [id, x1, y1, x2, y2] =>
    return line (← id.natural?) (← x1.real?) (← y1.real?) (← x2.real?) (← y2.real?)
  | "rotate", [id, change] => return turn (← id.natural?) (← change.real?)
  | "wait", [seconds] => return wait (← seconds.int64?)
  | _, _ => none

/-- Members stand in any order and others are ignored. An array that begins with the kind and
goes on with the members in order is read too. -/
def ofJson? : Json → Option DrawEvent
  | .array (kind :: values) => do ofFields? (← kind.string?) values
  | json => do
    let kind ← (← json.field? "drawCommand").string?
    ofFields? kind (← (fieldNames kind).mapM json.field?)

end DrawEvent

namespace DrawLog

def toJson (log : DrawLog) : Json := .array (log.toList.map DrawEvent.toJson)

def ofJson? (json : Json) : Option DrawLog := do
  return (← (← json.items?).mapM DrawEvent.ofJson?).toArray

/-- The text of the log, where `write` says how documents are written. -/
def textBy (write : Json → String) (log : DrawLog) : String := write (toJson log)

/-- The log that a text holds, where `read` says how documents are read. -/
def ofTextBy? (read : String → Option Json) (text : String) : Option DrawLog := do
  ofJson? (← read text)

/-- The text of the file that holds the log. -/
def text (log : DrawLog) : String := log.textBy Json.pretty

end DrawLog

end Logo
