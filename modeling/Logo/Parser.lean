import Logo.Diagnostic
import Logo.Registry

/-!
Reading statements word by word. A statement may be spread over many submissions, so the
instructions that are still open are kept on a stack, each nested in the block of the one
below it.
-/
namespace Logo

/-- What an open instruction makes of a word: it takes it in, or finds that the word begins
a statement in its block. Both carry the instruction as it is afterwards. -/
inductive Step where
  | consumed (instruction : Instruction)
  | nested (instruction : Instruction)

namespace Token

/-- The name behind the colon of a parameter. -/
def parameter? (token : Token) : Option String :=
  match token.text.toList with
  | ':' :: name => some (String.ofList name)
  | _ => none

end Token

namespace Instruction

def accept (registry : Registry) (token : Token) (instruction : Instruction) :
    Except Fault Step :=
  let consumed progress := Step.consumed { instruction with progress }
  let nested progress := Step.nested { instruction with progress }
  match instruction.progress with
  | .ready => .ok (consumed .ready)
  | .single _ => do
    let value ← Value.resolve token.text
    return consumed (.single value)
  | .loop none body => do
    let times ← Value.resolve token.text
    return consumed (.loop times body)
  | .loop (some times) none =>
    if token.text = "[" then .ok (consumed (.loop times Block.empty))
    else .error (.expectedBlock token.text)
  | .loop (some times) (some block) =>
    if token.text = "]" then .ok (consumed (.loop times block.close))
    else .ok (nested (.loop times block))
  | .define none parameters body =>
    let name := Text.lowercase token.text
    if registry.isProtected token.text then .error (.protectedName name)
    else .ok (consumed (.define name parameters body))
  | .define (some name) parameters body =>
    match body, token.parameter? with
    | none, some parameter =>
      .ok (consumed (.define name (parameters ++ [Text.lowercase parameter]) none))
    | _, _ =>
      let block := body.getD .empty
      if token.is "end" then .ok (consumed (.define name parameters block.close))
      else .ok (nested (.define name parameters block))
  | .call arguments => do
    let value ← Value.resolve token.text
    return consumed (.call (arguments ++ [value]))

end Instruction

/-- The open instructions, the innermost one first. -/
structure Parser where
  stack : List Instruction := []

namespace Parser

def isIdle (parser : Parser) : Bool := parser.stack.isEmpty

/-- The statement that is being read. -/
def current (parser : Parser) : Option Instruction := parser.stack.getLast?

def depth (parser : Parser) : Nat := parser.stack.length

/-- Moves finished instructions from the top of the stack into the blocks they stand in. A
finished statement is given back, and leaves the stack empty. -/
def settle (top : Instruction) : List Instruction → Parser × Option Instruction
  | [] => if top.isComplete then (⟨[]⟩, some top) else (⟨[top]⟩, none)
  | parent :: below =>
    if top.isComplete then settle (parent.adopt top) below else (⟨top :: parent :: below⟩, none)

def begin (registry : Registry) (token : Token) : Except Fault Instruction :=
  match registry.lookup token.text with
  | some command => .ok (.start command)
  | none => .error (.unknownFunction token.text)

/-- Whether the word would end the block around an instruction that is not complete. -/
def endsEnclosing (token : Token) (top : Instruction) (below : List Instruction) : Bool :=
  top.terminator.isNone && (below.head?.bind Instruction.terminator).any token.is

def feedTop (registry : Registry) (maxDepth : Nat) (token : Token) (top : Instruction)
    (below : List Instruction) : Except Fault (Parser × Option Instruction) :=
  if endsEnclosing token top below then .error .incompleteBlock
  else do
    match ← top.accept registry token with
    | .consumed top => return settle top below
    | .nested top =>
      if maxDepth ≤ below.length + 1 then throw (.tooDeep maxDepth)
      return settle (← begin registry token) (top :: below)

/-- Reads one word, and gives back the statement that it completes. No instruction is nested
more than `maxDepth` levels deep, where the statement itself is one level. -/
def feed (registry : Registry) (maxDepth : Nat) (token : Token) (parser : Parser) :
    Except Fault (Parser × Option Instruction) :=
  match parser.stack with
  | [] => do return settle (← begin registry token) []
  | top :: below => feedTop registry maxDepth token top below

/-- Reads words as far as the first failure, and gives back the statements that they complete. -/
def feedAll (registry : Registry) (maxDepth : Nat) (parser : Parser) :
    List Token → Except Diagnostic (Parser × List Instruction)
  | [] => .ok (parser, [])
  | token :: tokens =>
    match parser.feed registry maxDepth token with
    | .error fault => .error { fault, position := token.position }
    | .ok (next, done) => do
      let (last, statements) ← feedAll registry maxDepth next tokens
      return (last, done.toList ++ statements)

end Parser

end Logo
