/-!
What can be wrong with a statement.
-/
namespace Logo

inductive Fault where
  | unknownFunction (name : String)
  | notAnInteger
  | incompleteBlock
  | protectedName (name : String)
  | expectedBlock (found : String)
  | unknownParameter (name : String)
  | stepLimit (limit : Nat)
  | tooDeep (limit : Nat)
  /-- An instruction was performed before it was complete. No parsed statement does so. -/
  | unfinished
deriving DecidableEq, Repr

def Fault.message : Fault → String
  | .unknownFunction name => s!"Unknown function: {name}"
  | .notAnInteger => "Argument is not an integer"
  | .incompleteBlock => "The last command is not complete"
  | .protectedName name => s!"Cannot override the built-in function '{name}'"
  | .expectedBlock found => s!"Expected '[' but found '{found}'"
  | .unknownParameter name => s!"Unknown parameter: :{name}"
  | .stepLimit limit => s!"Gave up after {limit} steps"
  | .tooDeep limit => s!"Nested more than {limit} levels deep"
  | .unfinished => "The instruction is not complete"

end Logo
