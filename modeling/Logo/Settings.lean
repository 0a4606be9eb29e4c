/-!
What the user can choose about a session.
-/
namespace Logo

structure Settings where
  /-- Whether turns are entered into the log. -/
  recordRotations : Bool := false
  /-- How many instructions one statement may perform, where each pass of a loop counts too. -/
  stepLimit : Nat := 1000000
  /-- How deeply blocks and calls may nest in one statement. -/
  maxDepth : Nat := 200
deriving DecidableEq, Repr

end Logo
