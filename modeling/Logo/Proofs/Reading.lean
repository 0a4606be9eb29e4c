import Mathlib.Data.List.DropRight
import Logo.Proofs.Documents

/-!
Reading documents. The reader finds the document in each of its texts: strings are read
character by character, lists item by item, and blanks are skipped wherever the grammar allows
them. Together with the printer it makes a library that keeps to the format, and one that keeps
every finite number.
-/
namespace Logo.Json

theorem readChars_plain (done rest : List Char) {c : Char} (quote : c ≠ '"')
    (backslash : c ≠ '\\') (control : ¬ c.toNat < 0x20) :
    readChars done (c :: rest) = readChars (c :: done) rest := by
  rw [readChars, if_neg control]
  · exact quote
  · exact fun _ _ _ _ _ same _ => backslash same
  · exact fun _ _ same _ => backslash same

/-- The first half of a pair is not a character by itself. -/
theorem scalar?_of_surrogatePair? {high low : Nat} {char : Char}
    (stands : surrogatePair? high low = some char) : scalar? high = none := by
  unfold surrogatePair? at stands
  split at stands
  · next halves => exact if_neg (by rw [Nat.isValidChar]; omega)
  · cases stands

theorem Quoted.readChars {text s : List Char} (quoted : Quoted text s) (done rest : List Char) :
    readChars done (text ++ '"' :: rest) = some (String.ofList (done.reverse ++ s), rest) := by
  induction quoted generalizing done with
  | nil => simp [Json.readChars]
  | plain quote backslash control _ ih =>
      rw [List.cons_append, readChars_plain _ _ quote backslash control, ih]
      simp
  | escape stands _ ih =>
      unfold simpleEscape? at stands
      split at stands <;> cases stands <;> simp [Json.readChars, simpleEscape?, ih]
  | code hex stands _ ih => simp [Json.readChars, hex, stands, ih]
  | pair first second stands _ ih =>
      simp [Json.readChars, first, scalar?_of_surrogatePair? stands, second, stands, ih]

section Blanks

theorem skipBlanks_append {blanks : List Char} (blank : Blank blanks) (cs : List Char) :
    skipBlanks (blanks ++ cs) = skipBlanks cs :=
  List.dropWhile_append_of_pos blank

theorem skipBlanks_cons {c : Char} (other : isBlank c = false) (cs : List Char) :
    skipBlanks (c :: cs) = c :: cs := by
  simp [skipBlanks, other]

theorem skipBlanks_skipBlanks (cs : List Char) : skipBlanks (skipBlanks cs) = skipBlanks cs :=
  List.dropWhile_idempotent ..

theorem readValue_skipBlanks (fuel : Nat) (cs : List Char) :
    readValue fuel (skipBlanks cs) = readValue fuel cs := by
  cases fuel with
  | zero => rfl
  | succ fuel => rw [readValue, readValue, skipBlanks_skipBlanks]

theorem readItems_skipBlanks (fuel : Nat) (cs : List Char) :
    readItems fuel (skipBlanks cs) = readItems fuel cs := by
  cases fuel with
  | zero => rfl
  | succ fuel => rw [readItems, readItems, readValue_skipBlanks]

theorem readFields_skipBlanks (fuel : Nat) (cs : List Char) :
    readFields fuel (skipBlanks cs) = readFields fuel cs := by
  cases fuel with
  | zero => rfl
  | succ fuel => rw [readFields, readFields, skipBlanks_skipBlanks]

end Blanks

section Values

variable {fuel : Nat} {cs rest after : List Char}

theorem readNumber_eq_none {c : Char} (sign : c ≠ '-') (other : c.isDigit = false) :
    readNumber (c :: cs) = none := by
  have same : Decimal.isDigit c = false := other
  rw [readNumber_plain (by simpa using sign)]
  simp [readUnsigned, readFigures, readDigits, same]

theorem readValue_of_readNumber {found : Json × List Char} (read : readNumber cs = some found) :
    readValue (fuel + 1) cs = some found := by
  cases cs with
  | nil => cases read
  | cons c cs =>
      have solid : isBlank c = false := by
        by_contra blank
        simp only [isBlank, Bool.not_eq_false, Bool.or_eq_true, beq_iff_eq] at blank
        obtain ((rfl | rfl) | rfl) | rfl := blank <;>
          cases (readNumber_eq_none (by decide) rfl).symm.trans read
      -- All other kinds of values begin with a character with which no number begins.
      rw [readValue, skipBlanks_cons solid]
      split
      case h_7 => exact read
      all_goals
        next same =>
        rw [same] at read
        cases (readNumber_eq_none (by decide) rfl).symm.trans read

theorem readItems_bracket : readItems fuel (']' :: cs) = none := by
  have value (fuel : Nat) : readValue fuel (']' :: cs) = none := by
    cases fuel with
    | zero => rfl
    | succ fuel =>
        rw [readValue, skipBlanks_cons rfl]
        exact readNumber_eq_none (by decide) rfl
  cases fuel with
  | zero => rfl
  | succ fuel =>
      rw [readItems, value]
      rfl

theorem readFields_brace : readFields fuel ('\x7d' :: cs) = none := by
  cases fuel with
  | zero => rfl
  | succ fuel =>
      rw [readFields, skipBlanks_cons rfl]
      rfl

theorem readValue_array {items : List Json} (read : readItems fuel cs = some (items, rest)) :
    readValue (fuel + 1) ('[' :: cs) = some (array items, rest) := by
  rw [← readItems_skipBlanks] at read
  rw [readValue, skipBlanks_cons rfl]
  simp only
  split
  · next h =>
      rw [h, readItems_bracket] at read
      cases read
  · rw [read]
    rfl

theorem readValue_object {fields : List (String × Json)}
    (read : readFields fuel cs = some (fields, rest)) :
    readValue (fuel + 1) ('\x7b' :: cs) = some (object fields, rest) := by
  rw [← readFields_skipBlanks] at read
  rw [readValue, skipBlanks_cons rfl]
  simp only
  split
  · next h =>
      rw [h, readFields_brace] at read
      cases read
  · rw [read]
    rfl

theorem readItems_last {item : Json} (first : readValue fuel cs = some (item, after))
    (bracket : skipBlanks after = ']' :: rest) : readItems (fuel + 1) cs = some ([item], rest) := by
  rw [readItems, first]
  simp only [Option.bind_eq_bind, Option.bind_some, bracket]
  rfl

theorem readItems_more {item : Json} {items : List Json} {behind : List Char}
    (first : readValue fuel cs = some (item, after)) (comma : skipBlanks after = ',' :: behind)
    (others : readItems fuel behind = some (items, rest)) :
    readItems (fuel + 1) cs = some (item :: items, rest) := by
  rw [readItems, first]
  simp only [Option.bind_eq_bind, Option.bind_some, comma, others]
  rfl

variable {real : List Char → Float → Prop} {levels : Nat} {nameText : List Char} {name : String}

theorem Denotes.quoted (named : Denotes real levels nameText (.string name)) :
    ∃ before inner after, Blank before ∧ Blank after ∧ Quoted inner name.toList ∧
      nameText = before ++ '"' :: (inner ++ '"' :: after) := by
  generalize same : Json.string name = json at named
  induction named with
  | null | yes | no | integer | real | array | object => cases same
  | string quoted =>
      cases same
      exact ⟨[], _, [], blank_nil, blank_nil, quoted, rfl⟩
  | @padded _ outer text tail _ blank blank' _ ih =>
      obtain ⟨before, inner, after, first, last, quoted, rfl⟩ := ih same
      refine ⟨outer ++ before, inner, after ++ tail, ?_, ?_, quoted, by simp⟩
      · exact List.forall_mem_append.mpr ⟨blank, first⟩
      · exact List.forall_mem_append.mpr ⟨last, blank'⟩

theorem Denotes.readName (named : Denotes real levels nameText (.string name)) (cs : List Char) :
    ∃ inner after, skipBlanks (nameText ++ ':' :: cs) = '"' :: inner ∧
      readChars [] inner = some (name, after) ∧ skipBlanks after = ':' :: cs := by
  obtain ⟨before, inner, after, first, last, quoted, rfl⟩ := named.quoted
  refine ⟨inner ++ '"' :: (after ++ ':' :: cs), after ++ ':' :: cs, ?_, ?_, ?_⟩
  · rw [List.append_assoc, skipBlanks_append first, List.cons_append, skipBlanks_cons rfl]
    simp
  · rw [quoted.readChars]
    simp
  · rw [skipBlanks_append last, skipBlanks_cons rfl]

theorem readFields_last (named : Denotes real levels nameText (.string name)) {value : Json}
    (first : readValue fuel cs = some (value, after)) (brace : skipBlanks after = '\x7d' :: rest) :
    readFields (fuel + 1) (nameText ++ ':' :: cs) = some ([(name, value)], rest) := by
  obtain ⟨inner, behind, opened, read, colon⟩ := named.readName cs
  rw [readFields, opened]
  simp only [read, Option.bind_eq_bind, Option.bind_some, colon, first, brace]
  rfl

theorem readFields_more (named : Denotes real levels nameText (.string name)) {value : Json}
    {fields : List (String × Json)} {behind : List Char}
    (first : readValue fuel cs = some (value, after)) (comma : skipBlanks after = ',' :: behind)
    (others : readFields fuel behind = some (fields, rest)) :
    readFields (fuel + 1) (nameText ++ ':' :: cs) = some ((name, value) :: fields, rest) := by
  obtain ⟨inner, past, opened, read, colon⟩ := named.readName cs
  rw [readFields, opened]
  simp only [read, Option.bind_eq_bind, Option.bind_some, colon, first, comma, others]
  rfl

end Values

/-- The document is found in front of whatever follows its text. Blanks may be left over. -/
def Found (text : List Char) (json : Json) : Prop :=
  ∀ (fuel : Nat) (rest : List Char), Stops rest → text.length ≤ fuel →
    ∃ blanks, Blank blanks ∧ readValue (fuel + 1) (text ++ rest) = some (json, blanks ++ rest)

section Lists

variable {blanks rest : List Char} {fuel : Nat}

theorem stops_append (blank : Blank blanks) (stops : Stops rest) : Stops (blanks ++ rest) := by
  cases blanks with
  | nil => exact stops
  | cons c blanks =>
      have first : isBlank c = true := blank c List.mem_cons_self
      simp only [isBlank, Bool.or_eq_true, beq_iff_eq] at first
      rintro d ⟨⟩
      obtain ((rfl | rfl) | rfl) | rfl := first <;> decide

theorem stops_cons (c : Char) (cs : List Char)
    (mark : c.isDigit = false ∧ c ≠ '.' ∧ c ≠ 'e' ∧ c ≠ 'E') : Stops (c :: cs) := by
  rintro d ⟨⟩
  exact mark

theorem skipBlanks_mark (blank : Blank blanks) {c : Char} (solid : isBlank c = false)
    (cs : List Char) : skipBlanks (blanks ++ c :: cs) = c :: cs := by
  rw [skipBlanks_append blank, skipBlanks_cons solid]

theorem joined_append (text next : List Char) (texts : List (List Char)) (rest : List Char) :
    [','].intercalate (text :: next :: texts) ++ rest =
      text ++ ',' :: ([','].intercalate (next :: texts) ++ rest) := by
  simp

theorem length_joined (text next : List Char) (texts : List (List Char)) :
    ([','].intercalate (text :: next :: texts)).length =
      text.length + 1 + ([','].intercalate (next :: texts)).length := by
  simp
  omega

theorem readItems_joined (blank : Blank blanks) (rest : List Char) {item : List Char × Json}
    {items : List (List Char × Json)} (found : ∀ each ∈ item :: items, Found each.1 each.2)
    (enough : ([','].intercalate ((item :: items).map Prod.fst)).length + 2 ≤ fuel) :
    readItems fuel ([','].intercalate ((item :: items).map Prod.fst) ++ (blanks ++ ']' :: rest)) =
      some ((item :: items).map Prod.snd, rest) := by
  -- The fuel goes down by one with each item, the text still to be read by more than that.
  induction items generalizing item fuel with
  | nil =>
      simp only [List.map_cons, List.map_nil, List.intercalate_singleton] at enough ⊢
      obtain ⟨fuel, rfl⟩ : ∃ n, fuel = n + 2 := ⟨fuel - 2, by omega⟩
      have closed := stops_append blank (stops_cons ']' rest (by decide))
      obtain ⟨left, spare, read⟩ := found item List.mem_cons_self fuel _ closed (by omega)
      refine readItems_last read ?_
      rw [skipBlanks_append spare, skipBlanks_mark blank rfl]
  | cons next items ih =>
      rw [List.map_cons, List.map_cons, length_joined, ← List.map_cons] at enough
      rw [List.map_cons, List.map_cons, joined_append, ← List.map_cons]
      obtain ⟨fuel, rfl⟩ : ∃ n, fuel = n + 2 := ⟨fuel - 2, by omega⟩
      obtain ⟨left, spare, read⟩ :=
        found item List.mem_cons_self fuel _ (stops_cons ',' _ (by decide)) (by omega)
      have others := ih (fun each among => found each (List.mem_cons_of_mem _ among))
        (show _ ≤ fuel + 1 by omega)
      exact readItems_more read (skipBlanks_mark spare rfl _) others

theorem Member.text_append (m : Member) (rest : List Char) :
    m.text ++ rest = m.nameText ++ ':' :: (m.valueText ++ rest) := by
  simp [text]

theorem Member.length_text (m : Member) :
    m.text.length = m.nameText.length + (m.valueText.length + 1) := by
  simp [text]

theorem readFields_joined (blank : Blank blanks) (rest : List Char)
    {real : List Char → Float → Prop} {levels : Nat} {m : Member} {members : List Member}
    (names : ∀ each ∈ m :: members, Denotes real levels each.nameText (.string each.name))
    (found : ∀ each ∈ m :: members, Found each.valueText each.value)
    (enough : ([','].intercalate ((m :: members).map Member.text)).length + 2 ≤ fuel) :
    readFields fuel
        ([','].intercalate ((m :: members).map Member.text) ++ (blanks ++ '\x7d' :: rest)) =
      some ((m :: members).map Member.field, rest) := by
  induction members generalizing m fuel with
  | nil =>
      simp only [List.map_cons, List.map_nil, List.intercalate_singleton, Member.length_text]
        at enough ⊢
      obtain ⟨fuel, rfl⟩ : ∃ n, fuel = n + 2 := ⟨fuel - 2, by omega⟩
      have closed := stops_append blank (stops_cons '\x7d' rest (by decide))
      obtain ⟨left, spare, read⟩ := found m List.mem_cons_self fuel _ closed (by omega)
      rw [Member.text_append]
      refine readFields_last (names m List.mem_cons_self) read ?_
      rw [skipBlanks_append spare, skipBlanks_mark blank rfl]
  | cons next members ih =>
      rw [List.map_cons, List.map_cons, length_joined, Member.length_text, ← List.map_cons]
        at enough
      rw [List.map_cons, List.map_cons, joined_append, Member.text_append, ← List.map_cons]
      obtain ⟨fuel, rfl⟩ : ∃ n, fuel = n + 2 := ⟨fuel - 2, by omega⟩
      obtain ⟨left, spare, read⟩ :=
        found m List.mem_cons_self fuel _ (stops_cons ',' _ (by decide)) (by omega)
      have others := ih (fun each among => names each (List.mem_cons_of_mem _ among))
        (fun each among => found each (List.mem_cons_of_mem _ among))
        (show _ ≤ fuel + 1 by omega)
      exact readFields_more (names m List.mem_cons_self) read (skipBlanks_mark spare rfl _) others

end Lists

theorem found_of_readNumber {text : List Char} {json : Json}
    (read : readNumber text = some (json, [])) : Found text json :=
  fun _ _ stops _ => ⟨[], blank_nil, readValue_of_readNumber (readNumber_append read stops)⟩

/-- The texts from which the reader takes a number that is not whole. -/
def readReal? (text : String) : Option Float :=
  match readNumber text.toList with
  | some (real x, []) => some x
  | _ => none

theorem readReal?_eq_some_iff {text : String} {x : Float} :
    readReal? text = some x ↔ readNumber text.toList = some (real x, []) := by
  unfold readReal?
  split <;> simp_all

/-- The printer and the reader of this development. -/
def plain : Library where
  write := pretty
  read := parse?
  realText := realText
  readReal := readReal?

/-- The induction is on the text; in a list, what follows an item begins with a comma, a blank
or a bracket, so a number ends before it. -/
theorem Denotes.found {levels : Nat} {text : List Char} {json : Json}
    (denotes : Denotes plain.Reads levels text json) : Found text json := by
  induction denotes with
  | null | yes | no =>
      intro fuel rest _ _
      exact ⟨[], blank_nil, by simp [readValue, skipBlanks_cons, isBlank]⟩
  | integer low high => exact found_of_readNumber (readNumber_integerText low high)
  | real _ number =>
      have read := readReal?_eq_some_iff.mp number
      rw [String.toList_ofList] at read
      exact found_of_readNumber read
  | string quoted =>
      intro fuel rest _ _
      refine ⟨[], blank_nil, ?_⟩
      simp [readValue, skipBlanks_cons, isBlank, quoted.readChars]
  | @array _ items blanks _ blank ih =>
      intro fuel rest _ enough
      refine ⟨[], blank_nil, ?_⟩
      cases items with
      | nil => simp [readValue, skipBlanks_cons, isBlank, skipBlanks_mark blank]
      | cons item items =>
          simp only [List.length_cons, List.length_append] at enough
          have read := readItems_joined blank rest ih (show _ ≤ fuel by omega)
          simpa using readValue_array read
  | @object _ members blanks names _ blank _ ih =>
      intro fuel rest _ enough
      refine ⟨[], blank_nil, ?_⟩
      cases members with
      | nil => simp [readValue, skipBlanks_cons, isBlank, skipBlanks_mark blank]
      | cons m members =>
          simp only [List.length_cons, List.length_append] at enough
          have read := readFields_joined blank rest names ih (show _ ≤ fuel by omega)
          simpa using readValue_object read
  | @padded _ before text after json blank blank' _ ih =>
      intro fuel rest stops enough
      simp only [List.length_append] at enough
      obtain ⟨left, spare, read⟩ := ih fuel (after ++ rest) (stops_append blank' stops) (by omega)
      refine ⟨left ++ after, List.forall_mem_append.mpr ⟨spare, blank'⟩, ?_⟩
      rw [← readValue_skipBlanks] at read ⊢
      simp only [List.append_assoc]
      rw [skipBlanks_append blank]
      exact read

/-- Every text of a document is read as the document. -/
theorem Denotes.parse? {levels : Nat} {text : String} {json : Json}
    (denotes : Denotes plain.Reads levels text.toList json) : parse? text = some json := by
  obtain ⟨left, spare, read⟩ := denotes.found text.toList.length [] nofun (Nat.le_refl _)
  rw [List.append_nil, List.append_nil] at read
  have all : skipBlanks left = [] := List.dropWhile_eq_nil_iff.mpr spare
  simp only [Json.parse?, read, all]
  rfl

theorem standard_plain : plain.Standard where
  writes exact := exact.denotes_prettyAt (fun _ => rfl) 0
  reads denotes := denotes.parse?

theorem keeps_plain {x : Float} (finite : x.isFinite = true) : plain.Keeps x :=
  readReal?_eq_some_iff.mpr (readNumber_realText finite)

end Logo.Json
