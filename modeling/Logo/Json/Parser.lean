import Logo.Decimal.Natural
import Logo.Json.Basic

/-!
Reading JSON. Readers take the characters still to be read and give back what they have read
with the rest.
-/
namespace Logo.Json

abbrev Reader (α : Type) := List Char → Option (α × List Char)

def isBlank (c : Char) : Bool := c == ' ' || c == '\n' || c == '\r' || c == '\t'

def skipBlanks (cs : List Char) : List Char := cs.dropWhile isBlank

def hexValue? (c : Char) : Option Nat :=
  if Decimal.isDigit c then some (Decimal.digitValue c)
  else if 'a' ≤ c ∧ c ≤ 'f' then some (c.toNat - 'a'.toNat + 10)
  else if 'A' ≤ c ∧ c ≤ 'F' then some (c.toNat - 'A'.toNat + 10)
  else none

def hexQuad? (a b c d : Char) : Option Nat := do
  return (((← hexValue? a) * 16 + (← hexValue? b)) * 16 + (← hexValue? c)) * 16 + (← hexValue? d)

def simpleEscape? : Char → Option Char
  | '"' => some '"'
  | '\\' => some '\\'
  | '/' => some '/'
  | 'n' => some '\n'
  | 'r' => some '\r'
  | 't' => some '\t'
  | 'b' => some '\x08'
  | 'f' => some '\x0C'
  | _ => none

def scalar? (code : Nat) : Option Char :=
  if code.isValidChar then some (Char.ofNat code) else none

/-- The character that the two halves of a surrogate pair stand for. -/
def surrogatePair? (high low : Nat) : Option Char :=
  if 0xD800 ≤ high ∧ high < 0xDC00 ∧ 0xDC00 ≤ low ∧ low < 0xE000 then
    scalar? (0x10000 + (high - 0xD800) * 0x400 + (low - 0xDC00))
  else none

/-- The rest of a string whose characters so far are `done`, the last one first. -/
def readChars (done : List Char) : Reader String
  | '"' :: rest => some (String.ofList done.reverse, rest)
  | '\\' :: 'u' :: a :: b :: c :: d :: rest => do
    let code ← hexQuad? a b c d
    match scalar? code with
    | some char => readChars (char :: done) rest
    | none =>
      match rest with
      | '\\' :: 'u' :: a' :: b' :: c' :: d' :: rest => do
        let char ← surrogatePair? code (← hexQuad? a' b' c' d')
        readChars (char :: done) rest
      | _ => none
  | '\\' :: c :: rest => do readChars ((← simpleEscape? c) :: done) rest
  | c :: rest => if c.toNat < 0x20 then none else readChars (c :: done) rest
  | [] => none

def readDigits (cs : List Char) : List Char × List Char :=
  (cs.takeWhile Decimal.isDigit, cs.dropWhile Decimal.isDigit)

/-- Digits, at least one. -/
def readSome : Reader (List Char) := fun cs =>
  let (digits, rest) := readDigits cs
  if digits.isEmpty then none else some (digits, rest)

/-- The digits behind the point. -/
def readFraction : Reader (List Char)
  | '.' :: cs => readSome cs
  | cs => some ([], cs)

/-- Whether a minus sign leads, and what follows the sign. -/
def splitSign : List Char → Bool × List Char
  | '-' :: cs => (true, cs)
  | '+' :: cs => (false, cs)
  | cs => (false, cs)

/-- Digits behind an optional sign. -/
def readPower : Reader Int := fun cs =>
  let (negative, cs) := splitSign cs
  (readSome cs).map fun (digits, rest) =>
    let n := Decimal.continueNatural 0 digits
    (if negative then -n else n, rest)

def readExponent : Reader (Option Int)
  | [] => some (none, [])
  | e :: cs =>
    if e = 'e' ∨ e = 'E' then (readPower cs).map fun (n, rest) => (some n, rest)
    else some (none, e :: cs)

/-- A number's text without its sign, in parts. -/
structure Figures where
  whole : List Char
  fraction : List Char
  exponent : Option Int

/-- Zeros do not lead, and no digit is missing. -/
def readFigures : Reader Figures := fun cs => do
  let (whole, rest) := readDigits cs
  if whole.isEmpty || (whole.head? == some '0' && whole.length != 1) then none
  let (fraction, rest) ← readFraction rest
  let (exponent, rest) ← readExponent rest
  return (⟨whole, fraction, exponent⟩, rest)

/-- The 64-bit number nearest to `n * 10 ^ exponent`, if it is in range. -/
def nearestReal? (negative : Bool) (n : Nat) (exponent : Int) : Option Float :=
  let size := (Nat.toDigits 10 n).length + exponent
  let num := if 0 ≤ exponent then n * Nat.pow 10 exponent.toNat else n
  let den := if 0 ≤ exponent then 1 else Nat.pow 10 (-exponent).toNat
  let found :=
    if n = 0 ∨ size < -400 then Decimal.Dyadic.nearest? negative 0 1
    else if 400 < size then none
    else Decimal.Dyadic.nearest? negative num den
  found.map (·.toFloat)

namespace Figures

/-- The digits as one number. -/
def number (f : Figures) : Nat := Decimal.continueNatural 0 (f.whole ++ f.fraction)

/-- The power of ten that the number counts. -/
def scale (f : Figures) : Int := f.exponent.getD 0 - f.fraction.length

/-- A number without point and exponent that fits 64 bits is whole, unless it is minus zero. -/
def json? (negative : Bool) (f : Figures) : Option Json :=
  let signed : Int := if negative then -f.number else f.number
  let fits := Int64.minValue.toInt ≤ signed && signed < UInt64.size && !(negative && f.number == 0)
  if f.fraction.isEmpty && f.exponent.isNone && fits then some (integer signed)
  else (nearestReal? negative f.number f.scale).map .real

end Figures

def readUnsigned (negative : Bool) : Reader Json := fun cs => do
  let (f, rest) ← readFigures cs
  return (← f.json? negative, rest)

def readNumber : Reader Json
  | '-' :: cs => readUnsigned true cs
  | cs => readUnsigned false cs

mutual

/-- A value. No value is nested deeper than `fuel`, which the length of the text bounds. -/
def readValue (fuel : Nat) (cs : List Char) : Option (Json × List Char) :=
  match fuel with
  | 0 => none
  | fuel + 1 =>
    match skipBlanks cs with
    | 'n' :: 'u' :: 'l' :: 'l' :: rest => some (null, rest)
    | 't' :: 'r' :: 'u' :: 'e' :: rest => some (bool true, rest)
    | 'f' :: 'a' :: 'l' :: 's' :: 'e' :: rest => some (bool false, rest)
    | '"' :: rest => do
      let (s, rest) ← readChars [] rest
      return (string s, rest)
    | '[' :: rest =>
      match skipBlanks rest with
      | ']' :: rest => some (array [], rest)
      | rest => do
        let (items, rest) ← readItems fuel rest
        return (array items, rest)
    | '\x7b' :: rest =>
      match skipBlanks rest with
      | '\x7d' :: rest => some (object [], rest)
      | rest => do
        let (fields, rest) ← readFields fuel rest
        return (object fields, rest)
    | rest => readNumber rest

/-- The items of an array and the bracket after them. -/
def readItems (fuel : Nat) (cs : List Char) : Option (List Json × List Char) :=
  match fuel with
  | 0 => none
  | fuel + 1 => do
    let (item, rest) ← readValue fuel cs
    match skipBlanks rest with
    | ',' :: rest =>
      let (items, rest) ← readItems fuel rest
      return (item :: items, rest)
    | ']' :: rest => return ([item], rest)
    | _ => none

/-- The members of an object and the brace after them. -/
def readFields (fuel : Nat) (cs : List Char) : Option (List (String × Json) × List Char) :=
  match fuel with
  | 0 => none
  | fuel + 1 =>
    match skipBlanks cs with
    | '"' :: rest => do
      let (name, rest) ← readChars [] rest
      match skipBlanks rest with
      | ':' :: rest =>
        let (value, rest) ← readValue fuel rest
        match skipBlanks rest with
        | ',' :: rest =>
          let (fields, rest) ← readFields fuel rest
          return ((name, value) :: fields, rest)
        | '\x7d' :: rest => return ([(name, value)], rest)
        | _ => none
      | _ => none
    | _ => none

end

/-- Blanks may surround the document, and nothing else may. -/
def parse? (text : String) : Option Json :=
  let cs := text.toList
  match readValue (cs.length + 1) cs with
  | some (json, rest) => if (skipBlanks rest).isEmpty then some json else none
  | none => none

end Logo.Json
