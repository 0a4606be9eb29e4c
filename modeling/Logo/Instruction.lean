import Logo.Primitive
import Logo.Value

/-!
Instructions, finished or still being read. A call holds the procedure that its name stood
for when it was read, so defining the name anew later does not change it.
-/
namespace Logo

mutual

inductive Command where
  | primitive (p : Primitive)
  | procedure (p : Procedure)

/-- A procedure is told from another one, however alike, by its serial number. -/
structure Procedure where
  serial : Nat
  name : String
  parameters : List String
  body : List Instruction

structure Instruction where
  command : Command
  progress : Progress

/-- What has been read after the command's name. -/
inductive Progress where
  | ready
  | single (value : Option Value)
  | loop (times : Option Value) (body : Option Block)
  | define (name : Option String) (parameters : List String) (body : Option Block)
  | call (arguments : List Value)

structure Block where
  instructions : List Instruction
  closed : Bool

end

namespace Block

def empty : Block := ⟨[], false⟩

def close (block : Block) : Block := { block with closed := true }

def push (block : Block) (instruction : Instruction) : Block :=
  { block with instructions := block.instructions ++ [instruction] }

end Block

namespace Command

def names : Command → List String
  | primitive p => p.names
  | procedure p => [Text.lowercase p.name]

def name (command : Command) : String := command.names.headD ""

def parameters : Command → List String
  | primitive p => p.parameters
  | procedure p => p.parameters

/-- The names of primitives cannot be given to procedures. -/
def isProtected : Command → Bool
  | primitive _ => true
  | procedure _ => false

def same : Command → Command → Bool
  | primitive p, primitive q => p == q
  | procedure p, procedure q => p.serial == q.serial
  | _, _ => false

def start : Command → Progress
  | primitive .forward | primitive .backward | primitive .left | primitive .right
  | primitive .wait => .single none
  | primitive .penUp | primitive .penDown | primitive .clearScreen => .ready
  | primitive .loop => .loop none none
  | primitive .define => .define none [] none
  | procedure _ => .call []

end Command

namespace Instruction

def start (command : Command) : Instruction := ⟨command, command.start⟩

def isComplete (instruction : Instruction) : Bool :=
  match instruction.progress with
  | .ready => true
  | .single value => value.isSome
  | .loop _ body | .define _ _ body => body.any (·.closed)
  | .call arguments => arguments.length == instruction.command.parameters.length

/-- The word that ends the block of the instruction, where such a word may come next. A
definition that still takes parameters counts, since its body may be empty. -/
def terminator (instruction : Instruction) : Option String :=
  match instruction.progress with
  | .loop _ (some block) => if block.closed then none else some "]"
  | .define _ _ (some block) => if block.closed then none else some "end"
  | .define (some _) _ none => some "end"
  | _ => none

/-- Puts a finished instruction at the end of the block. -/
def adopt (instruction inner : Instruction) : Instruction :=
  match instruction.progress with
  | .loop times (some block) =>
    { instruction with progress := .loop times (some (block.push inner)) }
  | .define name parameters (some block) =>
    { instruction with progress := .define name parameters (some (block.push inner)) }
  | _ => instruction

end Instruction

mutual

/-- The same command with the same arguments and bodies. -/
def Instruction.same : Instruction → Instruction → Bool
  | ⟨command, progress⟩, other => command.same other.command && progress.same other.progress
termination_by structural instruction => instruction

def Progress.same : Progress → Progress → Bool
  | .ready, .ready => true
  | .single value, .single value' => value == value'
  | .loop times none, .loop times' none => times == times'
  | .loop times (some ⟨body, closed⟩), .loop times' (some block) =>
    times == times' && sameEach body block.instructions && closed == block.closed
  | .define name parameters none, .define name' parameters' none =>
    name == name' && parameters == parameters'
  | .define name parameters (some ⟨body, closed⟩), .define name' parameters' (some block) =>
    name == name' && parameters == parameters' && sameEach body block.instructions &&
      closed == block.closed
  | .call arguments, .call arguments' => arguments == arguments'
  | _, _ => false
termination_by structural progress => progress

def sameEach : List Instruction → List Instruction → Bool
  | [], [] => true
  | instruction :: rest, other :: others => instruction.same other && sameEach rest others
  | _, _ => false
termination_by structural instructions => instructions

end

end Logo
