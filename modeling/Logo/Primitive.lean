/-!
The commands that are always there.
-/
namespace Logo

inductive Primitive where
  | forward
  | backward
  | left
  | right
  | penUp
  | penDown
  | wait
  | clearScreen
  | loop
  | define
deriving DecidableEq, Repr

namespace Primitive

def all : List Primitive :=
  [forward, backward, left, right, penUp, penDown, wait, clearScreen, loop, define]

/-- The name proper, then the aliases. -/
def names : Primitive → List String
  | forward => ["forward", "fd"]
  | backward => ["backward", "bd", "back", "bk"]
  | left => ["left", "lt"]
  | right => ["right", "rt"]
  | penUp => ["penup", "pu"]
  | penDown => ["pendown", "pd"]
  | wait => ["wait", "wt"]
  | clearScreen => ["clearscreen", "cs"]
  | loop => ["repeat", "rp"]
  | define => ["to"]

def parameters : Primitive → List String
  | forward | backward => ["distance"]
  | left | right => ["angle"]
  | wait => ["seconds"]
  | loop => ["times"]
  | penUp | penDown | clearScreen | define => []

theorem mem_all (p : Primitive) : p ∈ all := by cases p <;> decide

theorem nodup_names : (all.flatMap names).Nodup := by decide +kernel

end Primitive

end Logo
