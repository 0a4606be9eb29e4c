import Logo.DrawEvent.Json
import Logo.DrawEvent.Svg
import Logo.History

/-!
The prompt: lines are submitted or are requests to undo, to redo or to quit, and after each
of them the reader sees what is new in the drawing and what went wrong.
-/
namespace Logo

/-- `reported` entries of the log have been printed. `svg` and `json` are the paths of the
files that are to hold the drawing. -/
structure Prompt where
  history : History
  reported : Nat := 0
  svg : Option String := none
  json : Option String := none

/-- A file to be written. -/
structure Save where
  path : String
  text : String
deriving DecidableEq, Repr

/-- What a line leads to: text for the reader, then files to write in order. -/
structure Reply where
  prompt : Prompt
  output : String := ""
  saves : List Save := []
  quits : Bool := false

namespace Prompt

def session (prompt : Prompt) : Session := prompt.history.present

/-- Asks for the next line; the text shows whether a statement is still open. -/
def ask (prompt : Prompt) : String := if prompt.session.isPending then ".. " else "> "

def withoutLineEnd (line : String) : String :=
  String.ofList ((line.toList.reverse.dropWhile fun c => c == '\r' || c == '\n').reverse)

/-- The entries that have not been printed. A log that has become shorter is all new. -/
def unreported (prompt : Prompt) : List DrawEvent :=
  let log := prompt.session.world.log
  if log.size < prompt.reported then log.toList else log.toList.drop prompt.reported

def saves (prompt : Prompt) : List Save :=
  let log := prompt.session.world.log
  (prompt.svg.map fun path => ⟨path, Svg.document log⟩).toList ++
    (prompt.json.map fun path => ⟨path, DrawLog.text log⟩).toList

/-- Tells what is new, after a notice. -/
def report (prompt : Prompt) (notice : String) : Reply where
  prompt := { prompt with reported := prompt.session.world.log.size }
  output :=
    notice ++ String.join (prompt.unreported.map (·.display ++ "\n")) ++
      (prompt.session.error.map Diagnostic.describe).getD ""
  saves := prompt.saves

def undo (prompt : Prompt) : Reply :=
  match prompt.history.undo? with
  | some history => { prompt with history }.report ""
  | none => prompt.report "nothing to undo\n"

def redo (prompt : Prompt) : Reply :=
  match prompt.history.redo? with
  | some history => { prompt with history }.report ""
  | none => prompt.report "nothing to redo\n"

def submit (prompt : Prompt) (text : String) : Reply :=
  { prompt with history := prompt.history.submit text }.report ""

def handle (prompt : Prompt) (line : String) : Reply :=
  match Text.trim line with
  | ".quit" => { prompt, quits := true }
  | ".undo" => prompt.undo
  | ".redo" => prompt.redo
  | _ => prompt.submit (withoutLineEnd line)

end Prompt

end Logo
