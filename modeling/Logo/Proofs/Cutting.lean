import Logo.Proofs.Submission
import Logo.Proofs.Words

/-!
How a text is cut into submissions does not matter. Wherever white space stands, submitting
what is before it and then what is behind it ends in the same session as submitting the whole
at once, and a failure is reported at the same word. What the reports tell of the text they
are about differs as it must: the line, and the bytes in front of the word.
-/
namespace Logo

/-- The same report about a text that has `n` more bytes in front of the word at fault. -/
def Diagnostic.moved (n : Nat) (text : String) (diagnostic : Diagnostic) : Diagnostic :=
  { diagnostic with position := diagnostic.position.map (Position.shift n), line := text }

namespace Session

/-- The same session with its report about another text. -/
def moved (n : Nat) (text : String) (session : Session) : Session :=
  { session with error := session.error.map (Diagnostic.moved n text) }

theorem moved_of_idle {session : Session} (h : session.error = none) (n : Nat) (text : String) :
    session.moved n text = session := by
  rw [moved, h, Option.map_none, ← h]

theorem feed_shift (session : Session) (n : Nat) (token : Token) :
    session.feed (token.shift n) = session.feed token :=
  Parser.feed_shift session.world.registry session.settings.maxDepth n token session.parser

theorem Reading.shift {session last : Session} {tokens : List Token} {done : List Session}
    (h : Reading session tokens done last) (n : Nat) :
    Reading session (tokens.map (Token.shift n)) done last := by
  induction h with
  | nil session => exact .nil session
  | opened fed rest ih => exact .opened (by rwa [feed_shift]) ih
  | completed fed ran rest ih => exact .completed (by rwa [feed_shift]) ran ih

theorem Fails.shift {text : String} {session : Session} {token : Token} {error : Diagnostic}
    (h : Fails text session token error) (n : Nat) (other : String) :
    Fails other session (token.shift n) (error.moved n other) := by
  cases h with
  | refused fed => exact .refused (by rwa [feed_shift])
  | failed fed ran => exact .failed (by rwa [feed_shift]) ran

theorem Fails.retold {text : String} {session : Session} {token : Token} {error : Diagnostic}
    (h : Fails text session token error) (other : String) :
    Fails other session token { error with line := some other } := by
  cases h with
  | refused fed => exact .refused fed
  | failed fed ran => exact .failed fed ran

theorem Fails.line_eq {text : String} {session : Session} {token : Token} {error : Diagnostic}
    (h : Fails text session token error) : error.line = some text := by
  cases h with
  | refused fed => rfl
  | failed fed ran => rfl

theorem submit_of_idle {session : Session} (h : session.error = none) (text : String) :
    session.submit text = session.readAll text (tokenize text) := by
  rw [submit, ← h]

/-- Words behind `n` more bytes of another text are read in the same way. -/
theorem readAll_shift (text other : String) (n : Nat) (session : Session)
    (idle : session.error = none) (tokens : List Token) :
    session.readAll other (tokens.map (Token.shift n)) =
      (session.readAll text tokens).moved n other := by
  obtain ⟨done, reading⟩ | ⟨before, token, after, done, last, error, rfl, reading, h, result⟩ :=
    readAll_cases text session idle tokens
  · rw [(reading.shift n).readAll_eq other idle, moved_of_idle (reading.error_eq.trans idle)]
  · rw [result, List.map_append, List.map_cons, (reading.shift n).readAll_append other idle,
      readAll_of_fails (h.shift n other)]
    rfl

theorem submit_line_eq {session : Session} {text : String} {error : Diagnostic}
    (h : (session.submit text).error = some error) : error.line = some text := by
  obtain ⟨_, _, _, _, _, _, _, fails, _⟩ := fails_of_submit h
  exact fails.line_eq

/-- The cut may be anywhere, also inside a statement: if the first part does not fail, the
second part goes on from it as in the whole text, and if it fails, the second part is lost. -/
theorem submit_joined (session : Session) (a b : String) (w : Char) (hw : Text.isWhiteSpace w) :
    ((session.submit a).error = none →
      session.submit (a ++ String.singleton w ++ b) =
        ((session.submit a).submit b).moved (a ++ String.singleton w).utf8ByteSize
          (a ++ String.singleton w ++ b) ∧
      ∀ error, ((session.submit a).submit b).error = some error → error.line = some b) ∧
    ((session.submit a).error.isSome →
      session.submit (a ++ String.singleton w ++ b) =
        { session.submit a with
          error := (session.submit a).error.map fun error =>
            { error with line := some (a ++ String.singleton w ++ b) } }) := by
  generalize whole : a ++ String.singleton w ++ b = text
  have words : tokenize text =
      tokenize a ++ (tokenize b).map (Token.shift (a ++ String.singleton w).utf8ByteSize) := by
    rw [← whole, tokenize_joined a b hw]
  obtain ⟨done, reading⟩ |
      ⟨before, token, after, done, last, error, split, reading, fails, result⟩ :=
    readAll_cases a { session with error := none } rfl (tokenize a)
  · change Reading _ _ _ (session.submit a) at reading
    have idle : (session.submit a).error = none := reading.error_eq
    constructor
    · intro _
      refine ⟨?_, fun error h => submit_line_eq h⟩
      rw [submit, words, reading.readAll_append text rfl, readAll_shift b text _ _ idle,
        submit_of_idle idle]
    · intro failed
      rw [idle] at failed
      cases failed
  · change session.submit a = last.fail error at result
    constructor
    · intro idle
      rw [result] at idle
      cases idle
    · intro _
      rw [submit, words, split, List.append_assoc, List.cons_append,
        reading.readAll_append text rfl, readAll_of_fails (fails.retold text), result]
      rfl

/-- A statement cut in its middle, with a word that is refused in the second part, and a first
part that fails. -/
theorem submit_joined_inside_loop :
    Text.isWhiteSpace '\n' ∧ (submit {} "repeat 2 [ fd").error = none ∧
    (submit {} "repeat 2 [ fd\n10 é").error =
      some ⟨.unknownFunction "é", some ⟨17, 18⟩, "repeat 2 [ fd\n10 é"⟩ ∧
    submit {} ("repeat 2 [ fd" ++ String.singleton '\n' ++ "10 é") =
      (submit (submit {} "repeat 2 [ fd") "10 é").moved 14
        ("repeat 2 [ fd" ++ String.singleton '\n' ++ "10 é") ∧
    (submit {} "pu repeat ]").error.isSome ∧
    submit {} ("pu repeat ]" ++ String.singleton '\n' ++ "pd") =
      { submit {} "pu repeat ]" with
        error := (submit {} "pu repeat ]").error.map fun error =>
          { error with line := some ("pu repeat ]" ++ String.singleton '\n' ++ "pd") } } := by
  refine ⟨by decide, by decide +kernel, by decide +kernel, ?_, by decide +kernel, ?_⟩
  · exact ((submit_joined {} "repeat 2 [ fd" "10 é" '\n' (by decide)).1 (by decide +kernel)).1
  · exact (submit_joined {} "pu repeat ]" "pd" '\n' (by decide)).2 (by decide +kernel)

end Session

end Logo
