import Logo.Text.WhiteSpace

/-!
Words of a submitted text. A word is a longest run of characters other than white space;
line breaks separate words like any other white space, since a statement may span lines.
-/
namespace Logo

/-- The bytes `start`, …, `last` of a text in UTF-8, counted from 0. -/
structure Position where
  start : Nat
  last : Nat
deriving DecidableEq, Repr

structure Token where
  text : String
  position : Position
deriving DecidableEq, Repr

namespace Token

/-- Equality up to the case of ASCII letters. -/
def is (token : Token) (word : String) : Bool :=
  token.text.toList.map Char.toLower == word.toList.map Char.toLower

/-- The token for a word, given last character first, that begins at byte `start`. -/
def ofWord (start : Nat) (word : List Char) : List Token :=
  match word with
  | [] => []
  | _ =>
    let text := String.ofList word.reverse
    [⟨text, start, start + text.utf8ByteSize - 1⟩]

/-- The words of `cs` together with the one begun at byte `start`, of which `word` holds the
characters read so far, the last one first. -/
def scan (start : Nat) (word : List Char) : List Char → List Token
  | [] => ofWord start word
  | c :: cs =>
    if Text.isWhiteSpace c then
      let size := (String.ofList word).utf8ByteSize
      ofWord start word ++ scan (start + size + c.utf8Size) [] cs
    else scan start (c :: word) cs

end Token

def tokenize (text : String) : List Token := Token.scan 0 [] text.toList

end Logo
