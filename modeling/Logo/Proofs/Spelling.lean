import Logo.Proofs.Feeding
import Logo.Proofs.Lowercase

/-!
Words up to the case of their letters. Words are compared in three ways: names in lower case,
the words that end blocks up to the case of ASCII letters, brackets and numbers as they are. All
three come to comparing lowercase forms, since most characters of ASCII are the small letters of
ASCII letters only. So a word can be replaced by its lowercase form, and the parser does with
it what it did before, except that faults may quote it.
-/
namespace Logo

namespace Text

/-- A character of ASCII that is not the small letter of any character outside of it. Only the
dotted capital I and the kelvin sign have such small letters. -/
def IsPlain (d : Char) : Prop := d.toNat < 0x80 ∧ d ≠ 'i' ∧ d ≠ 'k'

namespace CapitalRange

theorem beyond_capitalRanges :
    capitalRanges.all (fun range =>
      let low := (range.first + range.shift).toNat
      let high := (range.last + range.shift).toNat
      Nat.ble 0x80 low || low == 'k'.toNat && high == 'k'.toNat) = true := by
  decide +kernel

theorem toNat_ofNat {range : CapitalRange} (listed : range ∈ capitalRanges) {code : Nat}
    (inside : range.contains code = true) :
    (Char.ofNat (code + range.shift).toNat).toNat = (code + range.shift).toNat := by
  have last := of_decide_eq_true (List.all_eq_true.mp last_capitalRanges range listed)
  have apart := List.all_eq_true.mp (List.all_eq_true.mp apart_capitalRanges range listed)
    ⟨0xD800, 0xDFFF, 1, 0⟩ (by simp [excluded])
  have surrogate := contains_of_apart apart inside
  simp only [contains, Nat.mod_one, beq_self_eq_true, Bool.and_true, Bool.and_eq_false_iff,
    decide_eq_false_iff_not] at surrogate
  simp only [contains, Bool.and_eq_true, decide_eq_true_eq] at inside
  have valid : (code + range.shift).toNat.isValidChar := by
    unfold Nat.isValidChar
    omega
  rw [Char.ofNat, dif_pos valid]
  rfl

end CapitalRange

theorem toLower_of_smallLetter {c d : Char} (plain : IsPlain d) (h : smallLetter c = d) :
    c.toLower = d := by
  by_cases ascii : c.toNat < 0x80
  · rwa [smallLetter, if_pos ascii] at h
  · rw [smallLetter, if_neg ascii] at h
    cases found : capitalRanges.find? (·.contains c.toNat) with
    | none =>
        rw [found] at h
        have same : c = d := h
        exact absurd (same ▸ plain.1) ascii
    | some range =>
        rw [found] at h
        have inside : range.contains c.toNat = true := by simpa using List.find?_some found
        have listed := List.mem_of_find?_eq_some found
        have number := CapitalRange.toNat_ofNat listed inside
        have table := List.all_eq_true.mp CapitalRange.beyond_capitalRanges range listed
        have low := plain.1
        change Char.ofNat (c.toNat + range.shift).toNat = d at h
        rw [h] at number
        simp only [CapitalRange.contains, Bool.and_eq_true, decide_eq_true_eq] at inside
        simp only [Bool.or_eq_true, Bool.and_eq_true, Nat.ble_eq, beq_iff_eq] at table
        have other : d.toNat ≠ 'k'.toNat := fun same => plain.2.2 (Char.toNat_inj.mp same)
        obtain beyond | ⟨first, last⟩ := table
        · omega
        · omega

theorem lowerAfter_eq_nil {before cs : List Char} : lowerAfter before cs = [] ↔ cs = [] := by
  cases cs with
  | nil => simp [lowerAfter]
  | cons c cs =>
      rw [lowerAfter, lowerChar]
      split
      · simp
      · split <;> simp

/-- Of which character a plain one is the lowercase form. -/
theorem lowerAfter_eq_cons {before cs ds : List Char} {d : Char} (plain : IsPlain d)
    (h : lowerAfter before cs = d :: ds) :
    ∃ c rest, cs = c :: rest ∧ c.toLower = d ∧ lowerAfter (c :: before) rest = ds := by
  cases cs with
  | nil => cases h
  | cons c rest =>
      refine ⟨c, rest, rfl, ?_⟩
      rw [lowerAfter] at h
      by_cases greek : c = 'Σ'
      · rw [if_pos greek] at h
        have low := plain.1
        rw [← (List.cons.inj h).1, sigma] at low
        split at low <;> exact absurd low (by decide)
      · rw [if_neg greek, lowerChar] at h
        by_cases dotted : c = 'İ'
        · rw [if_pos dotted] at h
          exact absurd (List.cons.inj h).1.symm plain.2.1
        · rw [if_neg dotted] at h
          obtain ⟨first, later⟩ := List.cons.inj h
          exact ⟨toLower_of_smallLetter plain first, later⟩

theorem map_toLower_of_lowerAfter {before cs ds : List Char} (plain : ∀ d ∈ ds, IsPlain d)
    (h : lowerAfter before cs = ds) : cs.map Char.toLower = ds := by
  induction ds generalizing before cs with
  | nil => rw [lowerAfter_eq_nil.mp h, List.map_nil]
  | cons d ds ih =>
      obtain ⟨c, rest, rfl, first, later⟩ := lowerAfter_eq_cons (plain d List.mem_cons_self) h
      rw [List.map_cons, first, ih (fun e among => plain e (List.mem_cons_of_mem d among)) later]

theorem lowerAfter_of_ascii {cs : List Char} (h : ∀ c ∈ cs, c.toNat < 0x80)
    (before : List Char) : lowerAfter before cs = cs.map Char.toLower := by
  induction cs generalizing before with
  | nil => rfl
  | cons c cs ih =>
      have ascii : c.toNat < 0x80 := h c List.mem_cons_self
      have greek : c ≠ 'Σ' := by
        rintro rfl
        exact absurd ascii (by decide)
      have dotted : c ≠ 'İ' := by
        rintro rfl
        exact absurd ascii (by decide)
      rw [lowerAfter, if_neg greek, lowerChar, if_neg dotted, smallLetter, if_pos ascii,
        ih fun d later => h d (List.mem_cons_of_mem c later)]
      rfl

theorem map_toLower_eq_self {cs : List Char} (h : ∀ c ∈ cs, c.toLower = c) :
    cs.map Char.toLower = cs := by
  rw [List.map_congr_left h, List.map_id']

/-- Nothing changes that comes before the letters. -/
theorem lowerAfter_of_marks {cs : List Char} (h : ∀ c ∈ cs, c.toNat < 'A'.toNat)
    (before : List Char) : lowerAfter before cs = cs := by
  have low : ∀ c ∈ cs, c.toNat < 65 := h
  have same (c : Char) (among : c ∈ cs) : c.toLower = c := by
    have below := low c among
    apply Char.toNat_inj.mp
    rw [toNat_toLower, if_neg (by omega)]
  have ascii (c : Char) (among : c ∈ cs) : c.toNat < 0x80 :=
    Nat.lt_trans (low c among) (by decide)
  rw [lowerAfter_of_ascii ascii, map_toLower_eq_self same]

/-- Characters before the small letters stand for themselves. -/
theorem eq_of_toLower {c d : Char} (mark : d.toNat < 'a'.toNat) (h : c.toLower = d) : c = d := by
  apply Char.toNat_inj.mp
  have lower := toNat_toLower c
  change d.toNat < 97 at mark
  rw [h] at lower
  split at lower <;> omega

theorem isPlain_of_mark {d : Char} (mark : d.toNat < 'a'.toNat) : IsPlain d := by
  change d.toNat < 97 at mark
  refine ⟨by omega, ?_, ?_⟩ <;> rintro rfl <;> exact absurd mark (by decide)

theorem eq_of_lowerAfter {before cs ds : List Char} (marks : ∀ d ∈ ds, d.toNat < 'a'.toNat)
    (h : lowerAfter before cs = ds) : cs = ds := by
  have lower := map_toLower_of_lowerAfter (fun d among => isPlain_of_mark (marks d among)) h
  have same (c : Char) (among : c ∈ cs) : c.toLower = c := by
    have mark := marks c.toLower (lower ▸ List.mem_map_of_mem among)
    exact (eq_of_toLower mark rfl).symm
  exact (map_toLower_eq_self same).symm.trans lower

theorem meetsCased_append {d : Char} (h : isCaseIgnorable d = true) (cs : List Char) :
    meetsCased (cs ++ [d]) = meetsCased cs := by
  induction cs with
  | nil => simp [meetsCased, h]
  | cons c cs ih =>
      by_cases skipped : isCaseIgnorable c = true
      · simpa only [meetsCased, List.cons_append, List.dropWhile_cons_of_pos skipped] using ih
      · simp only [meetsCased, List.cons_append, List.dropWhile_cons_of_neg skipped]

/-- A character that is skipped in front of a text makes no difference to it. -/
theorem lowerAfter_append {d : Char} (h : isCaseIgnorable d = true) (before cs : List Char) :
    lowerAfter (before ++ [d]) cs = lowerAfter before cs := by
  induction cs generalizing before with
  | nil => rfl
  | cons c cs ih =>
      rw [lowerAfter, lowerAfter, sigma, sigma, meetsCased_append h, ← List.cons_append, ih]

/-- The colon in front of a name does not change what its last letter is taken for. -/
theorem lowerAfter_colon (name : List Char) :
    lowerAfter [] (':' :: name) = ':' :: lowerAfter [] name := by
  have skipped : isCaseIgnorable ':' = true := by decide
  exact congrArg (List.cons ':') (lowerAfter_append skipped [] name)

theorem lowerAfter_eq_colon {cs ds : List Char} (h : lowerAfter [] cs = ':' :: ds) :
    ∃ name, cs = ':' :: name ∧ ds = lowerAfter [] name := by
  obtain ⟨c, name, rfl, first, _⟩ := lowerAfter_eq_cons (isPlain_of_mark (by decide)) h
  obtain rfl := eq_of_toLower (by decide) first
  rw [lowerAfter_colon] at h
  exact ⟨name, rfl, (List.cons.inj h).2.symm⟩

theorem lowercase_eq_iff {text word : String} (marks : ∀ d ∈ word.toList, d.toNat < 'a'.toNat)
    (small : lowercase word = word) : lowercase text = word ↔ text = word := by
  constructor
  · intro h
    have chars := congrArg String.toList h
    rw [lowercase, String.toList_ofList] at chars
    exact String.toList_inj.mp (eq_of_lowerAfter marks chars)
  · rintro rfl
    exact small

end Text

/-- The word in lower case. -/
def Token.lowercase (token : Token) : Token := { token with text := Text.lowercase token.text }

/-- The fault with the word in lower case that it quotes as it was written. -/
def Fault.lowercase : Fault → Fault
  | unknownFunction name => unknownFunction (Text.lowercase name)
  | expectedBlock found => expectedBlock (Text.lowercase found)
  | fault => fault

namespace Token

/-- Words of plain small letters are compared in lower case. -/
theorem is_iff_lowercase {word : String} (token : Token)
    (plain : ∀ d ∈ word.toList, Text.IsPlain d ∧ d.toLower = d) :
    token.is word = true ↔ Text.lowercase token.text = word := by
  have small : word.toList.map Char.toLower = word.toList :=
    Text.map_toLower_eq_self fun d among => (plain d among).2
  rw [is, small, beq_iff_eq, ← String.toList_inj, Text.lowercase, String.toList_ofList]
  constructor
  · intro lower
    rw [Text.lowerAfter_of_ascii ?_, lower]
    intro c among
    have low := (plain c.toLower (lower ▸ List.mem_map_of_mem among)).1.1
    rw [Text.toNat_toLower] at low
    split at low <;> omega
  · exact Text.map_toLower_of_lowerAfter fun d among => (plain d among).1

theorem is_lowercase {word : String} (ends : word = "]" ∨ word = "end") (token : Token) :
    token.lowercase.is word = token.is word := by
  have plain : ∀ d ∈ word.toList, Text.IsPlain d ∧ d.toLower = d := by
    rcases ends with rfl | rfl <;> simp [Text.IsPlain]
  rw [Bool.eq_iff_iff, is_iff_lowercase _ plain, is_iff_lowercase _ plain, lowercase,
    Text.lowercase_lowercase]

theorem parameter?_of_colon {token : Token} {name : List Char}
    (h : token.text.toList = ':' :: name) : token.parameter? = some (String.ofList name) := by
  simp only [parameter?, h]

theorem parameter?_of_other {token : Token} (h : ∀ name, token.text.toList ≠ ':' :: name) :
    token.parameter? = none := by
  unfold parameter?
  split
  · next name text => exact absurd text (h name)
  · rfl

theorem parameter?_lowercase (token : Token) :
    token.lowercase.parameter? = token.parameter?.map Text.lowercase := by
  have chars : token.lowercase.text.toList = Text.lowerAfter [] token.text.toList :=
    String.toList_ofList
  by_cases colon : ∃ name, token.text.toList = ':' :: name
  · obtain ⟨name, text⟩ := colon
    rw [text, Text.lowerAfter_colon] at chars
    rw [parameter?_of_colon chars, parameter?_of_colon text, Option.map_some, Text.lowercase,
      String.toList_ofList]
  · have other (name : List Char) : token.lowercase.text.toList ≠ ':' :: name := by
      intro h
      obtain ⟨name, text, _⟩ := Text.lowerAfter_eq_colon (chars.symm.trans h)
      exact colon ⟨name, text⟩
    rw [parameter?_of_other other, parameter?_of_other fun name text => colon ⟨name, text⟩,
      Option.map_none]

end Token

namespace Value

theorem marks_of_natural? {cs : List Char} {n : Nat} (h : Decimal.natural? cs = some n) :
    ∀ c ∈ cs, c.toNat < 'A'.toNat := by
  intro c among
  have digits : cs.all Decimal.isDigit = true := by
    unfold Decimal.natural? at h
    split at h
    · next digits => exact (Bool.and_eq_true_iff.mp digits).2
    · cases h
  have digit := List.all_eq_true.mp digits c among
  simp only [Decimal.isDigit, Bool.and_eq_true, decide_eq_true_eq, Char.le_def,
    UInt32.le_iff_toNat_le] at digit
  have top : c.toNat ≤ 57 := digit.2
  exact Nat.lt_of_le_of_lt top (by decide)

theorem marks_of_integer? {cs : List Char} {n : Int64} (h : integer? cs = some n) :
    ∀ c ∈ cs, c.toNat < 'A'.toNat := by
  unfold integer? at h
  simp only [digits?_eq] at h
  split at h
  · obtain ⟨_, digits, _⟩ := Option.bind_eq_some_iff.mp h
    exact List.forall_mem_cons.mpr ⟨by decide, marks_of_natural? digits⟩
  · obtain ⟨_, digits, _⟩ := Option.bind_eq_some_iff.mp h
    exact List.forall_mem_cons.mpr ⟨by decide, marks_of_natural? digits⟩
  · obtain ⟨_, digits, _⟩ := Option.bind_eq_some_iff.mp h
    exact marks_of_natural? digits

theorem integer?_lowerAfter (cs : List Char) :
    integer? (Text.lowerAfter [] cs) = integer? cs := by
  cases found : integer? cs with
  | some n => rw [Text.lowerAfter_of_marks (marks_of_integer? found), found]
  | none =>
      rw [Option.eq_none_iff_forall_ne_some]
      intro n found'
      have marks := fun d among =>
        Nat.lt_trans (marks_of_integer? found' d among) (by decide : 'A'.toNat < 'a'.toNat)
      rw [← Text.eq_of_lowerAfter marks rfl, found] at found'
      cases found'

theorem resolve_of_name {word : String} {name : List Char} (h : word.toList = ':' :: name)
    (more : name ≠ []) : resolve word = .ok (.parameter (Text.lowercase (String.ofList name))) := by
  obtain ⟨c, rest, rfl⟩ := List.exists_cons_of_ne_nil more
  simp only [resolve, h]

theorem resolve_of_other {word : String} (h : ∀ name, word.toList = ':' :: name → name = []) :
    resolve word =
      match integer? word.toList with
      | some n => .ok (.constant n)
      | none => .error .notAnInteger := by
  unfold resolve
  split
  · next c name text => cases h _ text
  · rfl

theorem resolve_lowercase (word : String) : resolve (Text.lowercase word) = resolve word := by
  have chars : (Text.lowercase word).toList = Text.lowerAfter [] word.toList :=
    String.toList_ofList
  by_cases colon : ∃ name, word.toList = ':' :: name ∧ name ≠ []
  · obtain ⟨name, text, more⟩ := colon
    rw [text, Text.lowerAfter_colon] at chars
    have small : String.ofList (Text.lowerAfter [] name) = Text.lowercase (String.ofList name) := by
      rw [Text.lowercase, String.toList_ofList]
    rw [resolve_of_name chars (mt Text.lowerAfter_eq_nil.mp more), resolve_of_name text more, small,
      Text.lowercase_lowercase]
  · have other (name : List Char) (text : word.toList = ':' :: name) : name = [] :=
      Classical.byContradiction fun more => colon ⟨name, text, more⟩
    have other' (name : List Char) (text : (Text.lowercase word).toList = ':' :: name) :
        name = [] := by
      obtain ⟨behind, written, rfl⟩ := Text.lowerAfter_eq_colon (chars.symm.trans text)
      rw [other behind written]
      rfl
    rw [resolve_of_other other, resolve_of_other other', chars, integer?_lowerAfter]

end Value

namespace Registry

theorem lookup_lowercase (registry : Registry) (name : String) :
    registry.lookup (Text.lowercase name) = registry.lookup name := by
  rw [lookup, lookup, Text.lowercase_lowercase]

theorem isProtected_lowercase (registry : Registry) (name : String) :
    registry.isProtected (Text.lowercase name) = registry.isProtected name := by
  rw [isProtected, isProtected, lookup_lowercase]

end Registry

/-- An open instruction does the same with a word and with its lowercase form, where only the
fault may differ that it finds. -/
theorem Instruction.accept_lowercase (registry : Registry) (token : Token) (i : Instruction) :
    i.accept registry token.lowercase = (i.accept registry token).mapError Fault.lowercase := by
  have value : Value.resolve token.lowercase.text = Value.resolve token.text :=
    Value.resolve_lowercase token.text
  have opens : token.lowercase.text = "[" ↔ token.text = "[" :=
    Text.lowercase_eq_iff (by simp) (by decide +kernel)
  have closes : token.lowercase.text = "]" ↔ token.text = "]" :=
    Text.lowercase_eq_iff (by simp) (by decide +kernel)
  have ends : token.lowercase.is "end" = token.is "end" := token.is_lowercase (.inr rfl)
  -- a word that is no value is not quoted
  have taken (build : Value → Step) :
      (do return build (← Value.resolve token.text) : Except Fault Step) =
        (do return build (← Value.resolve token.text) : Except Fault Step).mapError
          Fault.lowercase := by
    cases found : Value.resolve token.text with
    | ok value => rfl
    | error fault =>
        cases Value.fault_of_resolve found
        rfl
  obtain ⟨command, progress⟩ := i
  cases progress with
  | ready => rfl
  | single _ | call arguments =>
      simp only [accept, value]
      exact taken _
  | loop times body =>
      obtain _ | times := times
      · simp only [accept, value]
        exact taken _
      · cases body with
        | none =>
            simp only [accept, opens]
            split <;> rfl
        | some block =>
            simp only [accept, closes]
            split <;> rfl
  | define name parameters body =>
      obtain _ | name := name
      · have small : Text.lowercase token.lowercase.text = Text.lowercase token.text :=
          Text.lowercase_lowercase token.text
        have names : registry.isProtected token.lowercase.text = registry.isProtected token.text :=
          registry.isProtected_lowercase token.text
        simp only [accept, small, names]
        split <;> rfl
      · simp only [accept, ends, Token.parameter?_lowercase]
        cases body with
        | none =>
            cases token.parameter? with
            | some parameter =>
                simp only [Option.map_some, Text.lowercase_lowercase]
                rfl
            | none =>
                simp only [Option.map_none]
                split <;> rfl
        | some block =>
            dsimp only
            split <;> rfl

namespace Parser

theorem begin_lowercase (registry : Registry) (token : Token) :
    begin registry token.lowercase = (begin registry token).mapError Fault.lowercase := by
  rw [begin, begin, Token.lowercase, Registry.lookup_lowercase]
  cases registry.lookup token.text <;> rfl

theorem endsEnclosing_lowercase (token : Token) (top : Instruction) (below : List Instruction) :
    endsEnclosing token.lowercase top below = endsEnclosing token top below := by
  rw [endsEnclosing, endsEnclosing]
  cases around : below.head?.bind Instruction.terminator with
  | none => rfl
  | some word =>
      obtain ⟨parent, _, ends⟩ := Option.bind_eq_some_iff.mp around
      rw [Option.any_some, Option.any_some, Token.is_lowercase (Instruction.terminator_cases ends)]

theorem feed_lowercase (registry : Registry) (maxDepth : Nat) (token : Token) (parser : Parser) :
    parser.feed registry maxDepth token.lowercase =
      (parser.feed registry maxDepth token).mapError Fault.lowercase := by
  obtain ⟨_ | ⟨top, below⟩⟩ := parser
  · simp only [feed, begin_lowercase]
    cases begin registry token <;> rfl
  · simp only [feed_open, endsEnclosing_lowercase, begin_lowercase, Instruction.accept_lowercase]
    split
    · rfl
    · cases top.accept registry token with
      | error fault => rfl
      | ok step =>
          cases step with
          | consumed next => rfl
          | nested next =>
              change (if maxDepth ≤ below.length + 1 then _ else _) =
                Except.mapError Fault.lowercase (if maxDepth ≤ below.length + 1 then _ else _)
              split
              · rfl
              · cases begin registry token <;> rfl

end Parser

end Logo
