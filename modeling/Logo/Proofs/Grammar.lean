import Logo.Parser

/-!
The grammar of statements, and facts about the words that it tells apart: a word that stands
for a value ends no block, and the word that ends a definition declares no parameter.
-/
namespace Logo

/-- The words that make up a statement, and the instruction that they denote. `around` is the
word that ends the block in which the statement stands, if it stands in one, and `level` is
how deeply it is nested, where a statement of its own has level 1. A block may be empty at any
level, but what stands in it must not be nested deeper than `maxDepth`. -/
inductive Statement (registry : Registry) (maxDepth : Nat) :
    Option String → Nat → List Token → Instruction → Prop
  | bare {around : Option String} {level : Nat} {token : Token} {p : Primitive}
      (named : registry.lookup token.text = some (.primitive p))
      (kind : p = .penUp ∨ p = .penDown ∨ p = .clearScreen) :
      Statement registry maxDepth around level [token] ⟨.primitive p, .ready⟩
  | single {around : Option String} {level : Nat} {token word : Token} {p : Primitive}
      {value : Value}
      (named : registry.lookup token.text = some (.primitive p))
      (kind : p = .forward ∨ p = .backward ∨ p = .left ∨ p = .right ∨ p = .wait)
      (argument : Value.resolve word.text = .ok value) :
      Statement registry maxDepth around level [token, word] ⟨.primitive p, .single value⟩
  | loop {around : Option String} {level : Nat} {token count opening closing : Token}
      {times : Value} {parts : List (List Token × Instruction)}
      (named : registry.lookup token.text = some (.primitive .loop))
      (argument : Value.resolve count.text = .ok times)
      (opened : opening.text = "[")
      (deep : parts ≠ [] → level + 1 ≤ maxDepth)
      (inner : ∀ part ∈ parts,
        Statement registry maxDepth (some "]") (level + 1) part.1 part.2)
      (starts : ∀ part ∈ parts, ∀ first ∈ part.1.head?, first.text ≠ "]")
      (closed : closing.text = "]") :
      Statement registry maxDepth around level
        (token :: count :: opening :: (parts.flatMap Prod.fst ++ [closing]))
        ⟨.primitive .loop, .loop times (some ⟨parts.map Prod.snd, true⟩)⟩
  | define {around : Option String} {level : Nat} {token name closing : Token}
      {words : List Token} {parameters : List String} {parts : List (List Token × Instruction)}
      (named : registry.lookup token.text = some (.primitive .define))
      (free : registry.isProtected name.text = false)
      (apart : ∀ word ∈ around, name.is word = false)
      (declared : words.map Token.parameter? = parameters.map some)
      (maximal : ∀ first ∈ (parts.flatMap Prod.fst).head?, first.parameter? = none)
      (deep : parts ≠ [] → level + 1 ≤ maxDepth)
      (inner : ∀ part ∈ parts,
        Statement registry maxDepth (some "end") (level + 1) part.1 part.2)
      (starts : ∀ part ∈ parts, ∀ first ∈ part.1.head?, first.is "end" = false)
      (closed : closing.is "end" = true) :
      Statement registry maxDepth around level
        (token :: name :: (words ++ (parts.flatMap Prod.fst ++ [closing])))
        ⟨.primitive .define, .define (some (Text.lowercase name.text))
          (parameters.map Text.lowercase) (some ⟨parts.map Prod.snd, true⟩)⟩
  | call {around : Option String} {level : Nat} {token : Token} {words : List Token}
      {values : List Value} {p : Procedure}
      (named : registry.lookup token.text = some (.procedure p))
      (arguments : words.map (fun word => Value.resolve word.text) = values.map .ok)
      (count : words.length = p.parameters.length) :
      Statement registry maxDepth around level (token :: words) ⟨.procedure p, .call values⟩

theorem Statement.isComplete {registry : Registry} {maxDepth : Nat} {around : Option String}
    {level : Nat} {tokens : List Token} {i : Instruction}
    (h : Statement registry maxDepth around level tokens i) : i.isComplete = true := by
  cases h with
  | bare named kind => rfl
  | single named kind argument => rfl
  | loop named argument opened deep inner starts closed => rfl
  | define named free apart declared maximal deep inner starts closed => rfl
  | call named arguments count =>
      have length := congrArg List.length arguments
      simp only [List.length_map] at length
      simp only [Instruction.isComplete, Command.parameters, beq_iff_eq]
      omega

theorem Text.toNat_toLower (c : Char) :
    c.toLower.toNat = if 65 ≤ c.toNat ∧ c.toNat ≤ 90 then c.toNat + 32 else c.toNat := by
  have bounds : (c.val ≥ 'A'.val ∧ c.val ≤ 'Z'.val) ↔ 65 ≤ c.toNat ∧ c.toNat ≤ 90 := by
    simp only [ge_iff_le, UInt32.le_iff_toNat_le]
    rfl
  unfold Char.toLower
  by_cases h : c.val ≥ 'A'.val ∧ c.val ≤ 'Z'.val
  · rw [dif_pos h, if_pos (bounds.mp h)]
    have top : c.val.toNat ≤ 90 := (bounds.mp h).2
    change (c.val + 32).toNat = c.val.toNat + 32
    rw [UInt32.toNat_add]
    change (c.val.toNat + 32) % 2 ^ 32 = c.val.toNat + 32
    omega
  · rw [dif_neg h, if_neg (mt bounds.mpr h)]

theorem Decimal.first_of_natural? {cs : List Char} {n : Nat} (h : natural? cs = some n) :
    ∃ c rest, cs = c :: rest ∧ c.toNat < 65 := by
  cases cs with
  | nil => cases h
  | cons c rest =>
      refine ⟨c, rest, rfl, ?_⟩
      by_cases digit : isDigit c = true
      · simp only [isDigit, Bool.and_eq_true, decide_eq_true_eq, Char.le_def,
          UInt32.le_iff_toNat_le] at digit
        have top : c.toNat ≤ 57 := digit.2
        omega
      · simp [natural?, digit] at h

/-- Values begin with a sign, a digit or a colon, all of which come before the letters. -/
theorem Value.first_of_resolve {word : String} {value : Value} (h : resolve word = .ok value) :
    ∃ c cs, word.toList = c :: cs ∧ c.toNat < 65 := by
  unfold resolve at h
  split at h
  · next c name split => exact ⟨':', c :: name, split, by decide⟩
  · split at h
    · next n found =>
        unfold integer? at found
        split at found
        · next digits split => exact ⟨'-', digits, split, by decide⟩
        · next digits split => exact ⟨'+', digits, split, by decide⟩
        · rw [digits?_eq] at found
          obtain ⟨n, digits, _⟩ := Option.bind_eq_some_iff.mp found
          exact Decimal.first_of_natural? digits
    · cases h

namespace Token

theorem toLower_first {token : Token} {word : String} {c d : Char} {cs ds : List Char}
    (h : token.is word = true) (text : token.text.toList = c :: cs)
    (other : word.toList = d :: ds) : c.toLower = d.toLower := by
  simp only [is, text, other, List.map_cons, beq_iff_eq] at h
  exact (List.cons.inj h).1

theorem is_bracket {token : Token} : token.is "]" = true ↔ token.text = "]" := by
  constructor
  · intro h
    have length : token.text.toList.length = 1 := by
      simp only [is, beq_iff_eq] at h
      simpa using congrArg List.length h
    obtain ⟨c, text⟩ := List.length_eq_one_iff.mp length
    have lower : c.toLower.toNat = 93 := by
      rw [toLower_first h text rfl]
      rfl
    rw [Text.toNat_toLower] at lower
    have same : c = ']' := by
      apply Char.toNat_inj.mp
      change c.toNat = 93
      split at lower <;> omega
    rw [← String.toList_inj, text, same]
    rfl
  · intro h
    rw [is, h]
    rfl

/-- A value does not end a block. -/
theorem is_of_resolve {token : Token} {value : Value}
    (h : Value.resolve token.text = .ok value) {word : String}
    (ends : word = "]" ∨ word = "end") : token.is word = false := by
  obtain ⟨c, cs, text, low⟩ := Value.first_of_resolve h
  have stays : c.toLower.toNat = c.toNat := by
    rw [Text.toNat_toLower, if_neg (by omega)]
  rw [Bool.eq_false_iff]
  intro same
  rcases ends with rfl | rfl
  · rw [toLower_first same text rfl] at stays
    change 93 = c.toNat at stays
    omega
  · rw [toLower_first same text rfl] at stays
    change 101 = c.toNat at stays
    omega

theorem parameter?_of_end {token : Token} (h : token.is "end" = true) :
    token.parameter? = none := by
  unfold parameter?
  split
  · next name text =>
      have lower : ':'.toLower = 'e'.toLower := toLower_first h text rfl
      exact absurd lower (by decide)
  · rfl

end Token

/-- The two words that end blocks. -/
theorem Instruction.terminator_cases {i : Instruction} {word : String}
    (h : i.terminator = some word) : word = "]" ∨ word = "end" := by
  unfold terminator at h
  split at h
  · split at h
    · cases h
    · exact .inl (Option.some.inj h).symm
  · split at h
    · cases h
    · exact .inr (Option.some.inj h).symm
  · exact .inr (Option.some.inj h).symm
  · cases h

end Logo
