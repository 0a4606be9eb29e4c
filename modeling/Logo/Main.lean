import Logo.CommandLine.Shell

/-!
The program: the same conversation as in a recorded run, held with the terminal and with
files on disk.
-/
namespace Logo.CommandLine

/-- Errors of the system that can be told from one another by their codes. -/
def FileError.ofCode? (code : UInt32) : Option FileError :=
  match code with
  | 2 => some .noSuchFile
  | 20 => some .notADirectory
  | 21 => some .isADirectory
  | 36 => some .nameTooLong
  | _ => none

def errorCode? : IO.Error → Option UInt32
  | .noFileOrDirectory _ code _ | .inappropriateType _ code _
  | .invalidArgument _ code _ | .otherError code _ => some code
  | _ => none

def cause (error : IO.Error) : String :=
  match errorCode? error >>= FileError.ofCode? with
  | some known => known.message
  | none => toString error

def giveUp (failure : Failure) : IO UInt32 := do
  (← IO.getStderr).putStr failure.message
  return 1

/-- Handles one line, and tells how the program ends if it ends here. -/
def answer (prompt : Prompt) (line : String) : IO (Prompt × Option UInt32) := do
  let reply := prompt.handle line
  let stdout ← IO.getStdout
  stdout.putStr reply.output
  stdout.flush
  if reply.quits then return (reply.prompt, some 0)
  for save in reply.saves do
    try IO.FS.writeFile save.path save.text
    catch error =>
      return (reply.prompt, some (← giveUp ⟨s!"failed to write {save.path}", cause error⟩))
  return (reply.prompt, none)

/-- The bytes up to the end of a line, after those read already. -/
partial def readLine (stdin : IO.FS.Stream) (line : ByteArray) : IO ByteArray := do
  let byte ← stdin.read 1
  if byte.isEmpty then return line
  if byte.data.back? == some 10 then return line ++ byte
  readLine stdin (line ++ byte)

partial def converse (prompt : Prompt) : IO UInt32 := do
  let stdout ← IO.getStdout
  stdout.putStr prompt.ask
  stdout.flush
  let bytes ← readLine (← IO.getStdin) .empty
  if bytes.isEmpty then return 0
  match String.fromUTF8? bytes with
  | none => giveUp ⟨FileError.notText.message, none⟩
  | some line =>
    match ← answer prompt line with
    | (_, some code) => return code
    | (prompt, none) => converse prompt

def answerAll (prompt : Prompt) : List String → IO (Prompt × Option UInt32)
  | [] => return (prompt, none)
  | line :: lines => do
    match ← answer prompt line with
    | (prompt, none) => answerAll prompt lines
    | ended => return ended

def startScript (prompt : Prompt) (path : String) : IO (Prompt × Option UInt32) := do
  try
    let file ← IO.FS.Handle.mk path .read
    let bytes ← file.readBinToEnd
    match String.fromUTF8? bytes with
    | some script => answerAll prompt (scriptLines script)
    | none =>
      return (prompt, some (← giveUp ⟨s!"failed to read {path}", FileError.notText.message⟩))
  catch error =>
    return (prompt, some (← giveUp ⟨s!"failed to read {path}", cause error⟩))

end Logo.CommandLine

open Logo.CommandLine in
def main (arguments : List String) : IO UInt32 := do
  match Options.parse? arguments with
  | none => return 2
  | some options =>
    let prompt := (Shell.start options {}).prompt
    let begun ←
      match options.script with
      | some path => startScript prompt path
      | none => pure (prompt, none)
    match begun with
    | (_, some code) => return code
    | (prompt, none) => converse prompt
