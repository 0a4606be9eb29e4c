import Logo.Proofs.Cutting
import Logo.Proofs.Scanning

/-!
Carets stand under the word at fault. Positions count bytes and carets stand under characters,
so the report has to count again; since words begin and end between characters, it never has to
make do with a byte offset, nor with a caret where there would be none.
-/
namespace Logo

theorem wholeChars_append (front back : List Char) :
    wholeChars (String.ofList front).utf8ByteSize (front ++ back) = some front.length := by
  induction front with
  | nil => cases back <;> rfl
  | cons c front ih =>
      have size := c.utf8Size_pos
      rw [Text.utf8ByteSize_cons, List.cons_append, wholeChars, if_neg (by omega),
        if_neg (by omega), Nat.add_sub_cancel_left, ih]
      rfl

/-- The bytes before a text hold its characters. -/
theorem wholeChars_of_append (front back : String) :
    wholeChars front.utf8ByteSize (front ++ back).toList = some front.length := by
  have whole := wholeChars_append front.toList back.toList
  rwa [String.ofList_toList, String.length_toList, ← String.toList_append] at whole

theorem Diagnostic.describe_at (fault : Fault) (position : Position) (line : String) :
    describe { fault, position := some position, line := some line } =
      "  " ++ line ++ "\n" ++ "  " ++ position.underline line ++ "\n" ++
      "error: " ++ fault.message ++ "\n" := by
  show "  " ++ line ++ ("\n" ++ "  ") ++ position.underline line ++ "\n" ++
    ("error: " ++ fault.message ++ "\n") = _
  simp only [String.append_assoc, -String.reduceAppend]

namespace Token

variable {token : Token} {front : String}

theorem column_start (back : String) (start : token.position.start = front.utf8ByteSize) :
    wholeChars token.position.start (front ++ token.text ++ back).toList = some front.length := by
  rw [start, String.append_assoc]
  exact wholeChars_of_append front (token.text ++ back)

theorem column_behind (back : String)
    (last : token.position.last + 1 = front.utf8ByteSize + token.text.utf8ByteSize) :
    wholeChars (token.position.last + 1) (front ++ token.text ++ back).toList =
      some (front.length + token.text.length) := by
  rw [last, ← String.utf8ByteSize_append, wholeChars_of_append, String.length_append]

/-- One caret for each character of the word, and a space for each one before it. -/
theorem underline_eq (back : String) (letters : 1 ≤ token.text.length)
    (start : token.position.start = front.utf8ByteSize)
    (last : token.position.last + 1 = front.utf8ByteSize + token.text.utf8ByteSize) :
    token.position.underline (front ++ token.text ++ back) =
      spaces front.length ++ carets token.text.length := by
  have width : max 1 (front.length + token.text.length - front.length) = token.text.length := by
    omega
  simp only [Position.underline, column, column_start back start, column_behind back last,
    Option.getD_some, width]

end Token

namespace Session

/-- How a failure is described. If it is about a word, the word has some characters, the line
that was submitted comes first and below it a row in which spaces stand under the characters
before the word and carets under those of the word; the offsets at which it begins and ends are
boundaries between characters. If not, there is only the message. -/
theorem describe_submit (session : Session) (text : String) (error : Diagnostic)
    (failed : (session.submit text).error = some error) :
    (∀ position, error.position = some position →
      ∃ before token after done last front back,
        tokenize text = before ++ token :: after ∧
        Reading { session with error := none } before done last ∧
        last.feed token = .error error.fault ∧ token.position = position ∧
        text = front ++ token.text ++ back ∧ 1 ≤ token.text.length ∧
        wholeChars position.start text.toList = some front.length ∧
        wholeChars (position.last + 1) text.toList =
          some (front.length + token.text.length) ∧
        error.describe =
          "  " ++ text ++ "\n" ++
          "  " ++ spaces front.length ++ carets token.text.length ++ "\n" ++
          "error: " ++ error.fault.message ++ "\n") ∧
    (error.position = none → error.describe = "error: " ++ error.fault.message ++ "\n") := by
  obtain ⟨before, token, after, done, last, split, reading, fails, _⟩ := fails_of_submit failed
  constructor
  · intro position found
    cases fails with
    | failed fed ran => cases found
    | @refused fault fed =>
        cases found
        have among : token ∈ tokenize text := by simp [split]
        obtain ⟨front, back, whole, start, ends⟩ := standsIn_of_tokenize among
        have letters : 1 ≤ token.text.length := by
          have word := ((divide_tokenize text).words token among).1
          rw [← String.length_toList]
          exact List.length_pos_of_ne_nil fun empty => word (String.toList_eq_nil_iff.mp empty)
        have row := Token.underline_eq back letters start ends
        rw [← whole] at row
        refine ⟨before, token, after, done, last, front, back, split, reading, fed, rfl, whole,
          letters, ?_, ?_, ?_⟩
        · rw [whole]
          exact Token.column_start back start
        · rw [whole]
          exact Token.column_behind back ends
        · rw [Diagnostic.describe_at, row]
          simp only [String.append_assoc, -String.reduceAppend]
  · intro none
    cases fails with
    | refused fed => cases none
    | failed fed ran => rfl

/-- Behind a wide space, a word with letters of two bytes; and a failure about no word. -/
theorem describe_submit_wide :
    (submit {} "pu\u3000 ñandú 1").error =
      some ⟨.unknownFunction "ñandú", some ⟨6, 12⟩, some "pu\u3000 ñandú 1"⟩ ∧
    Diagnostic.describe ⟨.unknownFunction "ñandú", some ⟨6, 12⟩, some "pu\u3000 ñandú 1"⟩ =
      "  pu\u3000 ñandú 1\n" ++
      "      ^^^^^\n" ++
      "error: Unknown function: ñandú\n" ∧
    (submit {} "fd :x").error = some ⟨.unknownParameter "x", none, some "fd :x"⟩ ∧
    Diagnostic.describe ⟨.unknownParameter "x", none, some "fd :x"⟩ =
      "error: Unknown parameter: :x\n" := by
  have refused : (submit {} "pu\u3000 ñandú 1").error =
      some ⟨.unknownFunction "ñandú", some ⟨6, 12⟩, some "pu\u3000 ñandú 1"⟩ := by
    decide +kernel
  have unknown : (submit {} "fd :x").error =
      some ⟨.unknownParameter "x", none, some "fd :x"⟩ := by
    decide +kernel
  refine ⟨refused, ?_, unknown, (describe_submit {} _ _ unknown).2 rfl⟩
  obtain ⟨_, token, _, _, _, front, _, _, _, _, _, _, _, begins, ends, described⟩ :=
    (describe_submit {} _ _ refused).1 _ rfl
  have four : wholeChars 6 "pu\u3000 ñandú 1".toList = some 4 := by decide
  have nine : wholeChars 13 "pu\u3000 ñandú 1".toList = some 9 := by decide
  have column : front.length = 4 := Option.some.inj (begins.symm.trans four)
  have width : token.text.length = 5 := by
    have both := Option.some.inj (ends.symm.trans nine)
    omega
  rw [described, column, width]
  decide

end Session

end Logo
