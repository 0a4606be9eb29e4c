import Logo.DrawEvent.Display

/-!
The picture drawn by a log, as an SVG document with an element for each line.
-/
namespace Logo.Svg

/-- A tag with its attributes in the order of their names. -/
def tag (name : String) (attributes : List (String × String)) (ending : String) : String :=
  "<" ++ name ++ String.join (attributes.map fun (key, value) => s!" {key}=\"{value}\"") ++ ending

/-- Only lines can be seen. -/
def element? : DrawEvent → Option String
  | .line _ x1 y1 x2 y2 =>
    some (tag "line"
      [("stroke", "black"), ("stroke-width", "2"), ("x1", plain x1), ("x2", plain x2),
        ("y1", plain y1), ("y2", plain y2)] "/>")
  | .turn _ _ | .wait _ => none

/-- A picture of 600 units in both directions around the place the turtle starts from. -/
def root (ending : String) : String :=
  tag "svg"
    [("preserveAspectRatio", "xMidYMid slice"), ("viewBox", "-300 -300 600 600"),
      ("xmlns", "http://www.w3.org/2000/svg")] ending

def document (log : DrawLog) : String :=
  match log.toList.filterMap element? with
  | [] => root "/>"
  | elements => String.intercalate "\n" (root ">" :: elements ++ ["</svg>"])

end Logo.Svg
