import Logo.Decimal.Format
import Logo.DrawEvent

/-!
Entries of the drawing log as lines of text for the reader at the prompt.
-/
namespace Logo

/-- Never an exponent, and nothing behind whole numbers. Of two decimals that are equally
good the upper one is written. -/
def plainFormat : Decimal.Format where
  tie := .up
  positional := fun _ => true
  wholeMark := ""

/-- Text for numbers that are not finite. -/
def boundless (x : Float) : String :=
  if x.isNaN then "NaN" else if x < 0 then "-inf" else "inf"

def plain (x : Float) : String :=
  match Decimal.Dyadic.ofFloat? x with
  | some d => plainFormat.write d
  | none => boundless x

def hundredths (x : Float) : String :=
  match Decimal.Dyadic.ofFloat? x with
  | some d => d.fixed 2
  | none => boundless x

def point (x y : Float) : String := "(" ++ hundredths x ++ ", " ++ hundredths y ++ ")"

def DrawEvent.display : DrawEvent → String
  | line id x1 y1 x2 y2 => s!"#{id} line {point x1 y1} -> {point x2 y2}"
  | turn id change => s!"#{id} rotate {plain change}"
  | wait seconds => s!"wait {seconds.toInt}s"

end Logo
