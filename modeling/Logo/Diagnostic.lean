import Logo.Fault
import Logo.Token

/-!
Reports of faults, with the line they are about and carets under the word at fault.
-/
namespace Logo

/-- A fault, where it was found if it is about a word, and the text that was submitted. -/
structure Diagnostic where
  fault : Fault
  position : Option Position := none
  line : Option String := none
deriving DecidableEq, Repr

/-- How many characters the first `offset` bytes of a text hold, if they hold whole ones. -/
def wholeChars (offset : Nat) : List Char → Option Nat
  | [] => if offset = 0 then some 0 else none
  | c :: cs =>
    if offset = 0 then some 0
    else if offset < c.utf8Size then none
    else (wholeChars (offset - c.utf8Size) cs).map (· + 1)

/-- The column that a byte offset stands for; the offset itself, if there is none. -/
def column (line : String) (offset : Nat) : Nat := (wholeChars offset line.toList).getD offset

def spaces (n : Nat) : String := String.ofList (List.replicate n ' ')

def carets (n : Nat) : String := String.ofList (List.replicate n '^')

namespace Position

/-- A caret under each character of the line that stands at the position, at least one. -/
def underline (position : Position) (line : String) : String :=
  let start := column line position.start
  let width := max 1 (column line (position.last + 1) - start)
  spaces start ++ carets width

end Position

def Diagnostic.describe (diagnostic : Diagnostic) : String :=
  let excerpt :=
    match diagnostic.line, diagnostic.position with
    | some line, some position => s!"  {line}\n  {position.underline line}\n"
    | _, _ => ""
  excerpt ++ s!"error: {diagnostic.fault.message}\n"

end Logo
