import Logo.Parser

/-!
Words of a text and where they stand. Positions are bytes, so a text that comes before
another one shifts the words of the latter by its size in UTF-8, and by nothing else if white
space divides the two. The parser does not look at positions.
-/
namespace Logo

theorem Text.utf8ByteSize_cons (c : Char) (cs : List Char) :
    (String.ofList (c :: cs)).utf8ByteSize = c.utf8Size + (String.ofList cs).utf8ByteSize := by
  have first : String.ofList (c :: cs) = String.singleton c ++ String.ofList cs := by
    rw [← String.toList_inj]
    simp
  rw [first, String.utf8ByteSize_append, String.utf8ByteSize_singleton]

theorem Text.utf8ByteSize_reverse (cs : List Char) :
    (String.ofList cs.reverse).utf8ByteSize = (String.ofList cs).utf8ByteSize := by
  induction cs with
  | nil => rfl
  | cons c cs ih =>
      rw [List.reverse_cons, String.ofList_append, String.utf8ByteSize_append, ih,
        utf8ByteSize_cons, utf8ByteSize_cons, String.ofList_nil, String.utf8ByteSize_empty]
      omega

/-- The position behind `n` more bytes. -/
def Position.shift (n : Nat) (position : Position) : Position :=
  ⟨n + position.start, n + position.last⟩

namespace Token

def shift (n : Nat) (token : Token) : Token := { token with position := token.position.shift n }

theorem size_pos (c : Char) (word : List Char) :
    0 < (String.ofList (c :: word).reverse).utf8ByteSize := by
  have first := c.utf8Size_pos
  rw [Text.utf8ByteSize_reverse, Text.utf8ByteSize_cons]
  omega

theorem ofWord_shift (n start : Nat) (word : List Char) :
    ofWord (n + start) word = (ofWord start word).map (shift n) := by
  cases word with
  | nil => rfl
  | cons c word =>
      -- the last byte is counted back from the end, which needs a byte to be there
      have size := size_pos c word
      simp only [ofWord, List.map_cons, List.map_nil, shift, Position.shift]
      congr 3
      omega

theorem scan_shift (n start : Nat) (word cs : List Char) :
    scan (n + start) word cs = (scan start word cs).map (shift n) := by
  induction cs generalizing start word with
  | nil => exact ofWord_shift n start word
  | cons c cs ih =>
      simp only [scan]
      split
      · rw [List.map_append, ofWord_shift, ← ih]
        simp only [Nat.add_assoc]
      · exact ih start (c :: word)

theorem scan_append {w : Char} (hw : Text.isWhiteSpace w) (start : Nat)
    (word cs ds : List Char) :
    scan start word (cs ++ w :: ds) =
      scan start word cs ++
        scan (start + (String.ofList word).utf8ByteSize + (String.ofList cs).utf8ByteSize +
          w.utf8Size) [] ds := by
  induction cs generalizing start word with
  | nil => simp [scan, hw]
  | cons c cs ih =>
      simp only [List.cons_append, scan]
      split
      · rw [ih, List.append_assoc]
        simp [Nat.add_assoc]
      · rw [ih]
        simp only [Text.utf8ByteSize_cons]
        congr 2
        omega

/-- The word is what stands in the text at its position. -/
def StandsIn (token : Token) (text : String) : Prop :=
  ∃ front back, text = front ++ token.text ++ back ∧
    token.position.start = front.utf8ByteSize ∧
    token.position.last + 1 = front.utf8ByteSize + token.text.utf8ByteSize

theorem standsIn_shift {token : Token} {text : String} (h : token.StandsIn text)
    (front : String) : (token.shift front.utf8ByteSize).StandsIn (front ++ text) := by
  obtain ⟨between, back, rfl, start, last⟩ := h
  refine ⟨front ++ between, back, by simp only [shift, String.append_assoc], ?_, ?_⟩
  · simp only [shift, Position.shift, start, String.utf8ByteSize_append]
  · simp only [shift, Position.shift, String.utf8ByteSize_append]
    omega

theorem standsIn_ofWord {word : List Char} {token : Token} (h : token ∈ ofWord 0 word)
    (back : String) : token.StandsIn (String.ofList word.reverse ++ back) := by
  cases word with
  | nil => cases h
  | cons c word =>
      have size := size_pos c word
      rw [List.mem_singleton.mp h]
      refine ⟨"", back, by simp, rfl, ?_⟩
      simp only [String.utf8ByteSize_empty]
      omega

theorem standsIn_scan {word cs : List Char} {token : Token} (h : token ∈ scan 0 word cs) :
    token.StandsIn (String.ofList word.reverse ++ String.ofList cs) := by
  induction cs generalizing word token with
  | nil => exact standsIn_ofWord h _
  | cons c cs ih =>
      have moved : String.ofList word.reverse ++ String.ofList (c :: cs) =
          String.ofList (c :: word).reverse ++ String.ofList cs := by
        simp [← String.toList_inj]
      simp only [scan] at h
      split at h
      · rcases List.mem_append.mp h with h | h
        · exact standsIn_ofWord h _
        · -- what follows the white space is read as a text of its own
          have size : 0 + (String.ofList word).utf8ByteSize + c.utf8Size =
              (String.ofList (c :: word).reverse).utf8ByteSize + 0 := by
            rw [Text.utf8ByteSize_reverse, Text.utf8ByteSize_cons]
            omega
          rw [size, scan_shift] at h
          obtain ⟨found, among, rfl⟩ := List.mem_map.mp h
          rw [moved]
          have later : found.StandsIn (String.ofList cs) := by simpa using ih among
          exact standsIn_shift later _
      · rw [moved]
        exact ih h

end Token

theorem standsIn_of_tokenize {text : String} {token : Token} (h : token ∈ tokenize text) :
    token.StandsIn text := by
  simpa using Token.standsIn_scan h

/-- White space divides a text into texts whose words are read apart. -/
theorem tokenize_joined (a b : String) {w : Char} (hw : Text.isWhiteSpace w) :
    tokenize (a ++ String.singleton w ++ b) =
      tokenize a ++ (tokenize b).map (Token.shift (a ++ String.singleton w).utf8ByteSize) := by
  have size : (a ++ String.singleton w).utf8ByteSize =
      (String.ofList a.toList).utf8ByteSize + w.utf8Size := by
    rw [String.utf8ByteSize_append, String.utf8ByteSize_singleton, String.ofList_toList]
  have chars : (a ++ String.singleton w ++ b).toList = a.toList ++ w :: b.toList := by
    simp
  rw [tokenize, chars, Token.scan_append hw, tokenize, tokenize, size, ← Token.scan_shift]
  simp

theorem Parser.feed_shift (registry : Registry) (maxDepth n : Nat) (token : Token)
    (parser : Parser) :
    parser.feed registry maxDepth (token.shift n) = parser.feed registry maxDepth token := rfl

end Logo
