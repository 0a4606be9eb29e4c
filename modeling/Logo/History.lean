import Logo.Session

/-!
Undo and redo. A submission gets an entry of its own only if it performed a statement; half
a statement, or one that fails, changes the present entry in place.
-/
namespace Logo

/-- The entries before and after the present one, in both lists the nearest one first. -/
structure History where
  past : List Session := []
  present : Session
  future : List Session := []

namespace History

def submit (history : History) (text : String) : History :=
  let next := history.present.submit text
  if next.statements = history.present.statements then { history with present := next }
  else ⟨history.present :: history.past, next, []⟩

def undo? (history : History) : Option History :=
  match history.past with
  | [] => none
  | previous :: past => some ⟨past, previous, history.present :: history.future⟩

def redo? (history : History) : Option History :=
  match history.future with
  | [] => none
  | next :: future => some ⟨history.present :: history.past, next, future⟩

end History

end Logo
