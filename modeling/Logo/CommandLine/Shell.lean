import Logo.CommandLine.Directory
import Logo.CommandLine.Options
import Logo.Prompt

/-!
A whole run of the program: the script first, then what is typed, until the input ends or a
line asks to quit. Everything that happens is kept in a transcript.
-/
namespace Logo.CommandLine

inductive Event where
  | asked (text : String)
  | handled (history : History) (output : String)

def Event.text : Event → String
  | asked text => text
  | handled _ output => output

/-- Why a run ended early: what could not be done, and what stood in the way. -/
structure Failure where
  problem : String
  cause : Option String := none
deriving DecidableEq, Repr

def Failure.message (failure : Failure) : String :=
  match failure.cause with
  | some cause => s!"Error: {failure.problem}\n\nCaused by:\n    {cause}\n"
  | none => s!"Error: {failure.problem}\n"

inductive Status where
  | running
  | finished
  | failed (failure : Failure)
deriving DecidableEq, Repr

/-- The transcript has the latest event first. -/
structure Shell where
  prompt : Prompt
  directory : Directory
  transcript : List Event := []
  status : Status := .running

namespace Shell

def record (shell : Shell) (event : Event) : Shell :=
  { shell with transcript := event :: shell.transcript }

def stop (shell : Shell) (status : Status) : Shell := { shell with status }

/-- Writes files in order, as far as the first that cannot be written. -/
def save (shell : Shell) : List Save → Shell
  | [] => shell
  | ⟨path, text⟩ :: saves =>
    match shell.directory.write path text with
    | .ok directory => { shell with directory }.save saves
    | .error error => shell.stop (.failed ⟨s!"failed to write {path}", error.message⟩)

def handle (shell : Shell) (line : String) : Shell :=
  let reply := shell.prompt.handle line
  let shell := { shell with prompt := reply.prompt }
  let shell := shell.record (.handled reply.prompt.history reply.output)
  if reply.quits then shell.stop .finished else shell.save reply.saves

def handleAll (shell : Shell) : List String → Shell
  | [] => shell
  | line :: lines =>
    match shell.status with
    | .running => (shell.handle line).handleAll lines
    | _ => shell

/-- Asks for each line before it is read. -/
def converse (shell : Shell) : List (List UInt8) → Shell
  | [] =>
    match shell.status with
    | .running => (shell.record (.asked shell.prompt.ask)).stop .finished
    | _ => shell
  | bytes :: lines =>
    match shell.status with
    | .running =>
      let shell := shell.record (.asked shell.prompt.ask)
      match String.fromUTF8? ⟨bytes.toArray⟩ with
      | some line => (shell.handle line).converse lines
      | none => shell.stop (.failed ⟨FileError.notText.message, none⟩)
    | _ => shell

end Shell

/-- Cuts after every `mark`, which stays with the piece that it ends. -/
def splitAfter {α : Type} [DecidableEq α] (mark : α) : List α → List (List α)
  | [] => []
  | a :: rest =>
    if a = mark then [a] :: splitAfter mark rest
    else
      match splitAfter mark rest with
      | [] => [[a]]
      | piece :: pieces => (a :: piece) :: pieces

theorem flatten_splitAfter {α : Type} [DecidableEq α] (mark : α) (l : List α) :
    (splitAfter mark l).flatten = l := by
  induction l with
  | nil => rfl
  | cons a rest ih =>
      unfold splitAfter
      split
      · simp [ih]
      · cases h : splitAfter mark rest with
        | nil => simp_all
        | cons piece pieces => simp_all

/-- A line without the line feed that ends it and a carriage return in front of that. -/
def withoutFeed (line : List Char) : List Char :=
  match line.reverse with
  | '\n' :: '\r' :: rest => rest.reverse
  | '\n' :: rest => rest.reverse
  | _ => line

def scriptLines (script : String) : List String :=
  (splitAfter '\n' script.toList).map fun line => String.ofList (withoutFeed line)

structure Outcome where
  exitCode : Nat
  stdout : String
  stderr : String
  directory : Directory

namespace Shell

def start (options : Options) (directory : Directory) : Shell where
  prompt :=
    { history := { present := { settings := options.settings } }
      svg := options.svg
      json := options.json }
  directory := directory

def runScript (shell : Shell) (path : String) : Shell :=
  match shell.directory.readText path with
  | .ok script => shell.handleAll (scriptLines script)
  | .error error => shell.stop (.failed ⟨s!"failed to read {path}", error.message⟩)

def runWith (options : Options) (stdin : List UInt8) (directory : Directory) : Shell :=
  let shell := start options directory
  let shell :=
    match options.script with
    | some path => shell.runScript path
    | none => shell
  shell.converse (splitAfter 10 stdin)

def stdout (shell : Shell) : String := String.join (shell.transcript.reverse.map Event.text)

def outcome (shell : Shell) : Outcome :=
  match shell.status with
  | .failed failure => ⟨1, shell.stdout, failure.message, shell.directory⟩
  | _ => ⟨0, shell.stdout, "", shell.directory⟩

end Shell

/-- Arguments that cannot be understood end the run at once. -/
def run (arguments : List String) (stdin : List UInt8) (directory : Directory) : Outcome :=
  match Options.parse? arguments with
  | some options => (Shell.runWith options stdin directory).outcome
  | none => ⟨2, "", "", directory⟩

end Logo.CommandLine
