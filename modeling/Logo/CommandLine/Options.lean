import Logo.Decimal.Natural
import Logo.Settings

/-!
The arguments of the program. Options are written `--name value` or `--name=value`, each at
most once; an argument of its own names the script; after `--` nothing is an option.
-/
namespace Logo.CommandLine

structure Options where
  script : Option String := none
  svg : Option String := none
  json : Option String := none
  recordRotations : Bool := false
  stepLimit : Option Nat := none
  maxDepth : Option Nat := none
deriving DecidableEq, Repr

namespace Options

def settings (options : Options) : Settings where
  recordRotations := options.recordRotations
  stepLimit := options.stepLimit.getD ({} : Settings).stepLimit
  maxDepth := options.maxDepth.getD ({} : Settings).maxDepth

/-- Sets what has not been set. -/
def once {α : Type} (held : Option α) (value : α) : Option (Option α) :=
  if held.isSome then none else some (some value)

/-- Paths are not empty. -/
def path? (text : String) : Option String := if text.isEmpty then none else some text

/-- A number of 64 bits without sign, which may be preceded by a plus sign. -/
def limit? (text : String) : Option Nat := do
  let digits :=
    match text.toList with
    | '+' :: digits => digits
    | digits => digits
  let n ← Decimal.natural? digits
  if n < UInt64.size then some n else none

def setScript (options : Options) (text : String) : Option Options := do
  return { options with script := ← once options.script (← path? text) }

/-- Sets the option of this name, or fails if it takes no value. -/
def setValue (options : Options) (name value : String) : Option Options := do
  match name with
  | "svg" => return { options with svg := ← once options.svg (← path? value) }
  | "json" => return { options with json := ← once options.json (← path? value) }
  | "step-limit" =>
    return { options with stepLimit := ← once options.stepLimit (← limit? value) }
  | "max-depth" => return { options with maxDepth := ← once options.maxDepth (← limit? value) }
  | _ => none

def setFlag (options : Options) : Option Options :=
  if options.recordRotations then none else some { options with recordRotations := true }

/-- How an argument before `--` is to be understood. -/
inductive Shape where
  | plain
  | separator
  | long (name : String) (value : Option String)
  /-- A dash with something other than a dash after it. -/
  | short
deriving DecidableEq, Repr

def shape (argument : String) : Shape :=
  match argument.toList with
  | ['-'] => .plain
  | ['-', '-'] => .separator
  | '-' :: '-' :: cs =>
    let name := String.ofList (cs.takeWhile (· != '='))
    match cs.dropWhile (· != '=') with
    | '=' :: value => .long name (String.ofList value)
    | _ => .long name none
  | '-' :: _ => .short
  | _ => .plain

/-- Reads the arguments from left to right, and fails on the first that has no place. -/
def read (options : Options) : List String → Option Options
  | [] => some options
  | argument :: rest =>
    match shape argument with
    | .plain => do (← options.setScript argument).read rest
    | .separator => rest.foldlM setScript options
    | .long name (some value) => do (← options.setValue name value).read rest
    | .long "record-rotations" none => do (← options.setFlag).read rest
    | .long name none =>
      match rest with
      | value :: rest =>
        if shape value = .plain then do (← options.setValue name value).read rest else none
      | [] => none
    | .short => none

/-- A request for help, `--help` or `-h`, counts as not understood. The texts that explain the
arguments, for that request or after a mistake, are left out: such a run ends with the status
of a mistake and prints nothing. -/
def parse? (arguments : List String) : Option Options := read {} arguments

end Options

end Logo.CommandLine
