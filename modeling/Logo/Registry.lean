import Logo.Instruction

/-!
The commands that can start a statement, by name. Names are looked up in lower case.
-/
namespace Logo

/-- `made` counts the procedures ever registered and gives the next one its serial number. -/
structure Registry where
  commands : Dictionary Command := {}
  made : Nat := 0

namespace Registry

def lookup (registry : Registry) (name : String) : Option Command :=
  registry.commands.get? (Text.lowercase name)

def isProtected (registry : Registry) (name : String) : Bool :=
  (registry.lookup name).any Command.isProtected

def empty : Registry := {}

def primitives : Registry :=
  { commands := .ofList (Primitive.all.flatMap fun p => p.names.map (·, .primitive p)) }

/-- Defines a procedure, in place of an earlier one of the same name. -/
def define (registry : Registry) (name : String) (parameters : List String)
    (body : List Instruction) : Except Fault Registry :=
  let key := Text.lowercase name
  if registry.isProtected name then .error (.protectedName key)
  else
    let procedure : Procedure := ⟨registry.made, name, parameters, body⟩
    .ok ⟨registry.commands.insert key (.procedure procedure), registry.made + 1⟩

end Registry

end Logo
