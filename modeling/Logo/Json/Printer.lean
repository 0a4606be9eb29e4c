import Logo.Json.Basic

/-!
JSON as text, on one line or spread over indented lines.
-/
namespace Logo.Json

/-- Numbers are positional from five places behind the point to sixteen before it, and whole
ones have a zero behind the point. A tie goes to the even digit. -/
def numberFormat : Decimal.Format where
  tie := .toEven
  positional := fun leading => -5 ≤ leading && leading ≤ 15
  wholeMark := ".0"

/-- There is no text for infinities. -/
def realText (x : Float) : String :=
  match Decimal.Dyadic.ofFloat? x with
  | some d => numberFormat.write d
  | none => "null"

def integerText (n : Int) : String :=
  Decimal.signText (n < 0) ++ String.ofList (Decimal.digitsOf n.natAbs)

def hexDigit (n : Nat) : Char := Nat.digitChar (n % 16)

def escape (c : Char) : List Char :=
  match c with
  | '"' => ['\\', '"']
  | '\\' => ['\\', '\\']
  | '\n' => ['\\', 'n']
  | '\r' => ['\\', 'r']
  | '\t' => ['\\', 't']
  | '\x08' => ['\\', 'b']
  | '\x0C' => ['\\', 'f']
  | _ =>
    if c.toNat < 0x20 then ['\\', 'u', '0', '0', hexDigit (c.toNat / 16), hexDigit c.toNat]
    else [c]

def quote (s : String) : String := "\"" ++ String.ofList (s.toList.flatMap escape) ++ "\""

def scalarText : Json → String
  | bool true => "true"
  | bool false => "false"
  | integer n => integerText n
  | real x => realText x
  | string s => quote s
  | _ => "null"

def separated (opening closing : String) (items : List String) : String :=
  opening ++ String.intercalate "," items ++ closing

mutual

def compact : Json → String
  | array items => separated "[" "]" (compactItems items)
  | object fields => separated "\x7b" "\x7d" (compactFields fields)
  | json => scalarText json
termination_by structural json => json

def compactItems : List Json → List String
  | [] => []
  | item :: items => item.compact :: compactItems items
termination_by structural items => items

def compactFields : List (String × Json) → List String
  | [] => []
  | (name, value) :: fields => (quote name ++ ":" ++ value.compact) :: compactFields fields
termination_by structural fields => fields

end

def newLine (level : Nat) : String := String.ofList ('\n' :: List.replicate (2 * level) ' ')

/-- The items one to a line, one level deeper than the brackets around them. -/
def spread (level : Nat) (opening closing : String) (items : List String) : String :=
  if items.isEmpty then opening ++ closing
  else separated opening (newLine level ++ closing) (items.map (newLine (level + 1) ++ ·))

mutual

/-- The text of a document that stands `level` levels deep in another. -/
def prettyAt (level : Nat) : Json → String
  | array items => spread level "[" "]" (prettyItems (level + 1) items)
  | object fields => spread level "\x7b" "\x7d" (prettyFields (level + 1) fields)
  | json => scalarText json
termination_by structural json => json

def prettyItems (level : Nat) : List Json → List String
  | [] => []
  | item :: items => item.prettyAt level :: prettyItems level items
termination_by structural items => items

def prettyFields (level : Nat) : List (String × Json) → List String
  | [] => []
  | (name, value) :: fields =>
    (quote name ++ ": " ++ value.prettyAt level) :: prettyFields level fields
termination_by structural fields => fields

end

def pretty (json : Json) : String := json.prettyAt 0

end Logo.Json
