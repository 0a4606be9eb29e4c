import Logo.Parser
import Logo.Perform

/-!
Sessions: text is submitted piece by piece, statements are performed as soon as they are
complete, and a statement that fails leaves no trace but the report of its failure.
-/
namespace Logo

/-- What has to be put back after a failed statement. Of the log its length is enough, with
what the run keeps when the log is cleared. -/
structure Checkpoint where
  turtle : Turtle
  pen : Pen
  registry : Registry
  logged : Nat
  nextId : Nat

namespace World

def checkpoint (world : World) : Checkpoint :=
  ⟨world.turtle, world.pen, world.registry, world.log.size, world.nextId⟩

/-- Performs a statement. If it fails, the world is as before. -/
def attempt (settings : Settings) (statement : Instruction) (world : World) :
    World × Option Fault :=
  let saved := world.checkpoint
  match statement.perform settings { world } with
  | .ok _ run => (run.world, none)
  | .error fault ⟨world, _, _, cleared⟩ =>
    let log := (cleared.getD world.log).take saved.logged
    ({ world with
        turtle := saved.turtle, pen := saved.pen, registry := saved.registry, log,
        nextId := saved.nextId }, some fault)

end World

structure Session where
  world : World := {}
  settings : Settings := {}
  parser : Parser := {}
  /-- How many statements have been performed. -/
  statements : Nat := 0
  error : Option Diagnostic := none

namespace Session

def isPending (session : Session) : Bool := !session.parser.isIdle

/-- The statement that waits for more words. -/
def current (session : Session) : Option Instruction := session.parser.current

/-- Gives up the statement that is being read or performed. -/
def fail (session : Session) (error : Diagnostic) : Session :=
  { session with parser := {}, error := some error }

def performStatement (text : String) (session : Session) (statement : Instruction) : Session :=
  match session.world.attempt session.settings statement with
  | (world, none) => { session with world, statements := session.statements + 1 }
  | (world, some fault) => { session with world }.fail { fault, line := text }

/-- Reads one word of the submitted text. -/
def read (text : String) (session : Session) (token : Token) : Session :=
  match session.parser.feed session.world.registry session.settings.maxDepth token with
  | .ok (parser, none) => { session with parser }
  | .ok (parser, some statement) => { session with parser }.performStatement text statement
  | .error fault => session.fail { fault, position := token.position, line := text }

/-- Reads words as far as the first failure. -/
def readAll (text : String) (session : Session) : List Token → Session
  | [] => session
  | token :: tokens =>
    let next := session.read text token
    if next.error.isSome then next else next.readAll text tokens

/-- The text need not hold whole statements: what is left open at its end is continued by the
next submission. What follows a failure is ignored. -/
def submit (session : Session) (text : String) : Session :=
  { session with error := none }.readAll text (tokenize text)

/-- Performs finished statements on one account of steps. The error, the statement being read
and the count of statements stay as they are. -/
def performAll (session : Session) (statements : List Instruction) : Except Fault Session :=
  match performEach session.settings statements { world := session.world } with
  | .ok _ run => .ok { session with world := run.world }
  | .error fault _ => .error fault

/-- Performs the whole statements of a text on one account of steps, all or none of them. -/
def performText (session : Session) (text : String) : Except Diagnostic Session := do
  let (_, statements) ←
    Parser.feedAll session.world.registry session.settings.maxDepth {} (tokenize text)
  match session.performAll statements with
  | .ok session => return session
  | .error fault => throw { fault }

end Session

end Logo
