import Logo.Settings
import Logo.World

/-!
Performing instructions. Instructions and passes of loops are charged as steps, nesting is
measured as depth, and both are limited, so that performing always ends with a verdict.
-/
namespace Logo

/-- A statement being performed. `cleared` is the log as the first clearing found it. -/
structure Run where
  world : World
  steps : Nat := 0
  depth : Nat := 0
  cleared : Option DrawLog := none

/-- An action that was begun leaves its traces in the run also when it fails. -/
abbrev Action := EStateM Fault Run Unit

namespace Action

def charge (limit : Nat) : Action := do
  modify fun run => { run with steps := run.steps + 1 }
  if limit < (← get).steps then throw (.stepLimit limit)

def descend (limit : Nat) : Action := do
  modify fun run => { run with depth := run.depth + 1 }
  if limit < (← get).depth then throw (.tooDeep limit)

def ascend : Action :=
  modify fun run => { run with depth := run.depth - 1 }

def change (f : World → World) : Action :=
  modify fun run => { run with world := f run.world }

def evaluate (value : Value) : EStateM Fault Run Int64 := do
  match value.get (← get).world.bindings with
  | .ok n => return n
  | .error fault => throw fault

def clear : Action :=
  modify fun run =>
    { run with world := run.world.clear, cleared := some (run.cleared.getD run.world.log) }

def define (name : String) (parameters : List String) (body : List Instruction) : Action := do
  match (← get).world.registry.define name parameters body with
  | .ok registry => change ({ · with registry })
  | .error fault => throw fault

/-- The arguments evaluated from left to right and bound to the parameters. -/
def evaluateEach : List String → List Value → EStateM Fault Run (List (String × Int64))
  | name :: names, value :: values => do
    let n ← evaluate value
    return (name, n) :: (← evaluateEach names values)
  | _, _ => return []

/-- Performs with `bindings` alone in scope. The outer bindings come back also on failure. -/
def inScope (bindings : Bindings) (action : Action) : Action := fun run =>
  let outer := run.world.bindings
  let leave (run : Run) := { run with world := { run.world with bindings := outer } }
  match action { run with world := { run.world with bindings } } with
  | .ok _ run => .ok () (leave run)
  | .error fault run => .error fault (leave run)

def iterate (action : Action) : Nat → Action
  | 0 => return
  | n + 1 => do
    action
    iterate action n

end Action

namespace Primitive

/-- What a primitive without arguments does. -/
def perform : Primitive → Action
  | penUp => Action.change (·.setPen false)
  | penDown => Action.change (·.setPen true)
  | clearScreen => Action.clear
  | _ => throw .unfinished

/-- What a primitive with one argument does. -/
def performWith (settings : Settings) (value : Value) : Primitive → Action
  | forward => do
    let n ← Action.evaluate value
    Action.change (·.move n)
  | backward => do
    let n ← Action.evaluate value.negated
    Action.change (·.move n)
  | right => do
    let n ← Action.evaluate value
    Action.change (·.turn settings.recordRotations n)
  | left => do
    let n ← Action.evaluate value.negated
    Action.change (·.turn settings.recordRotations n)
  | wait => do
    let n ← Action.evaluate value
    Action.change (·.wait n)
  | _ => throw .unfinished

end Primitive

mutual

def Instruction.perform (settings : Settings) : Instruction → Action
  | ⟨command, progress⟩ => do
    Action.charge settings.stepLimit
    Action.descend settings.maxDepth
    match command, progress with
    | .primitive p, .single (some value) => p.performWith settings value
    | .primitive p, .ready => p.perform
    | _, .loop (some times) (some ⟨body, _⟩) => do
      let n ← Action.evaluate times
      let pass : Action := do
        Action.charge settings.stepLimit
        performEach settings body
      Action.iterate pass n.toInt.toNat
    | _, .define (some name) parameters (some block) =>
      Action.define name parameters block.instructions
    | .procedure ⟨_, _, parameters, body⟩, .call arguments => do
      let entries ← Action.evaluateEach parameters arguments
      Action.inScope (.ofList entries) (performEach settings body)
    | _, _ => throw .unfinished
    Action.ascend
termination_by structural instruction => instruction

def performEach (settings : Settings) : List Instruction → Action
  | [] => return
  | instruction :: rest => do
    instruction.perform settings
    performEach settings rest
termination_by structural instructions => instructions

end

end Logo
