import Logo.Proofs.Figures

/-!
Documents and their texts. `Denotes` is the grammar of the format: which texts stand for a
document, with blanks and escapes wherever they are allowed. A library that writes and reads
documents is a parameter, of which `Library.Standard` says only that it keeps to this grammar;
how it writes numbers that are not whole, and which of them it reads back exactly, is left open.
The printer of this development keeps to the grammar too.
-/
namespace Logo.Json

def Blank (cs : List Char) : Prop := ∀ c ∈ cs, isBlank c = true

/-- The texts of a string, without the quotes around it. -/
inductive Quoted : List Char → List Char → Prop
  | nil : Quoted [] []
  | plain {c : Char} {text s : List Char} (quote : c ≠ '"') (backslash : c ≠ '\\')
      (control : ¬ c.toNat < 0x20) (rest : Quoted text s) : Quoted (c :: text) (c :: s)
  | escape {name c : Char} {text s : List Char} (stands : simpleEscape? name = some c)
      (rest : Quoted text s) : Quoted ('\\' :: name :: text) (c :: s)
  | code {a b c d char : Char} {n : Nat} {text s : List Char} (hex : hexQuad? a b c d = some n)
      (stands : scalar? n = some char) (rest : Quoted text s) :
      Quoted ('\\' :: 'u' :: a :: b :: c :: d :: text) (char :: s)
  | pair {a b c d a' b' c' d' char : Char} {high low : Nat} {text s : List Char}
      (first : hexQuad? a b c d = some high) (second : hexQuad? a' b' c' d' = some low)
      (stands : surrogatePair? high low = some char) (rest : Quoted text s) :
      Quoted ('\\' :: 'u' :: a :: b :: c :: d :: '\\' :: 'u' :: a' :: b' :: c' :: d' :: text)
        (char :: s)

inductive IsFraction : List Char → Prop
  | absent : IsFraction []
  | digits {digits : List Char} (filled : digits ≠ []) (all : ∀ c ∈ digits, c.isDigit = true) :
      IsFraction ('.' :: digits)

inductive IsExponent : List Char → Prop
  | absent : IsExponent []
  | power {e : Char} {sign digits : List Char} (mark : e = 'e' ∨ e = 'E')
      (signed : sign = [] ∨ sign = ['-'] ∨ sign = ['+']) (filled : digits ≠ [])
      (all : ∀ c ∈ digits, c.isDigit = true) : IsExponent (e :: (sign ++ digits))

/-- The texts of numbers with a point or an exponent. -/
inductive IsReal : List Char → Prop
  | mk {sign whole fraction exponent : List Char} (signed : sign = [] ∨ sign = ['-'])
      (filled : whole ≠ []) (all : ∀ c ∈ whole, c.isDigit = true)
      (leading : whole.head? = some '0' → whole.length = 1) (behind : IsFraction fraction)
      (scaled : IsExponent exponent) (marked : fraction ≠ [] ∨ exponent ≠ []) :
      IsReal (sign ++ (whole ++ (fraction ++ exponent)))

/-- A member of an object beside its text. -/
structure Member where
  nameText : List Char
  name : String
  valueText : List Char
  value : Json

def Member.text (m : Member) : List Char := m.nameText ++ ':' :: m.valueText

def Member.field (m : Member) : String × Json := (m.name, m.value)

/-- The texts of a document that is nested at most `levels` deep. Which number a text with a
point or an exponent stands for is left to `real`, since it depends on the rounding. -/
inductive Denotes (real : List Char → Float → Prop) : Nat → List Char → Json → Prop
  | null {levels : Nat} : Denotes real levels "null".toList .null
  | yes {levels : Nat} : Denotes real levels "true".toList (.bool true)
  | no {levels : Nat} : Denotes real levels "false".toList (.bool false)
  | integer {levels : Nat} {n : Int} (low : -2 ^ 63 ≤ n) (high : n < 2 ^ 64) :
      Denotes real levels (integerText n).toList (.integer n)
  | real {levels : Nat} {text : List Char} {x : Float} (shape : IsReal text)
      (number : real text x) : Denotes real levels text (.real x)
  | string {levels : Nat} {text : List Char} {s : String} (quoted : Quoted text s.toList) :
      Denotes real levels ('"' :: (text ++ ['"'])) (.string s)
  | array {levels : Nat} {items : List (List Char × Json)} {blanks : List Char}
      (each : ∀ item ∈ items, Denotes real levels item.1 item.2) (blank : Blank blanks) :
      Denotes real (levels + 1)
        ('[' :: ([','].intercalate (items.map Prod.fst) ++ (blanks ++ [']'])))
        (.array (items.map Prod.snd))
  | object {levels : Nat} {members : List Member} {blanks : List Char}
      (names : ∀ m ∈ members, Denotes real levels m.nameText (.string m.name))
      (values : ∀ m ∈ members, Denotes real levels m.valueText m.value) (blank : Blank blanks) :
      Denotes real (levels + 1)
        ('\x7b' :: ([','].intercalate (members.map Member.text) ++ (blanks ++ ['\x7d'])))
        (.object (members.map Member.field))
  | padded {levels : Nat} {before text after : List Char} {json : Json} (blank : Blank before)
      (blank' : Blank after) (inner : Denotes real levels text json) :
      Denotes real levels (before ++ (text ++ after)) json

/-- Documents that have a text: whole numbers fit 64 bits, and all others are among those that
are `kept`. -/
inductive Exact (kept : Float → Prop) : Nat → Json → Prop
  | null {levels : Nat} : Exact kept levels .null
  | bool {levels : Nat} (b : Bool) : Exact kept levels (.bool b)
  | integer {levels : Nat} {n : Int} (low : -2 ^ 63 ≤ n) (high : n < 2 ^ 64) :
      Exact kept levels (.integer n)
  | real {levels : Nat} {x : Float} (number : kept x) : Exact kept levels (.real x)
  | string {levels : Nat} (s : String) : Exact kept levels (.string s)
  | array {levels : Nat} {items : List Json} (each : ∀ item ∈ items, Exact kept levels item) :
      Exact kept (levels + 1) (.array items)
  | object {levels : Nat} {fields : List (String × Json)}
      (each : ∀ field ∈ fields, Exact kept levels field.2) :
      Exact kept (levels + 1) (.object fields)

section Numbers

variable {real real' : List Char → Float → Prop} {kept : Float → Prop} {json : Json}

/-- Only the numbers of the document itself matter. -/
theorem Denotes.imp {levels height : Nat} {text : List Char}
    (denotes : Denotes real levels text json) (exact : Exact kept height json)
    (imp : ∀ text x, kept x → real text x → real' text x) : Denotes real' levels text json := by
  induction denotes generalizing height with
  | null => exact .null
  | yes => exact .yes
  | no => exact .no
  | integer low high => exact .integer low high
  | real shape number =>
      cases exact with
      | real held => exact .real shape (imp _ _ held number)
  | string quoted => exact .string quoted
  | array each blank ih =>
      cases exact with
      | array held =>
          exact .array (fun item among => ih item among (held _ (List.mem_map_of_mem among))) blank
  | object names values blank ihn ihv =>
      cases exact with
      | object held =>
          have named (m : Member) : Exact kept 0 (.string m.name) := .string m.name
          refine .object (fun m among => ihn m among (named m)) ?_ blank
          exact fun m among => ihv m among (held _ (List.mem_map_of_mem among))
  | padded blank blank' _ ih => exact .padded blank blank' (ih exact)

end Numbers

/-- A library for documents: how it writes and reads them, and how it writes and reads the
numbers of 64 bits in them that are not whole ones. -/
structure Library where
  write : Json → String
  read : String → Option Json
  realText : Float → String
  readReal : String → Option Float

namespace Library

def Writes (library : Library) (text : List Char) (x : Float) : Prop :=
  text = (library.realText x).toList

def Reads (library : Library) (text : List Char) (x : Float) : Prop :=
  library.readReal (String.ofList text) = some x

/-- The number is read back from its own text. -/
def Keeps (library : Library) (x : Float) : Prop :=
  library.readReal (library.realText x) = some x

/-- The library keeps to the format. What it writes is a text of the document, if all numbers are
finite, and it reads every text of a document that is nested at most 127 deep. Whether a number
is rounded on its way through its text is not said here. -/
structure Standard (library : Library) : Prop where
  writes {levels : Nat} {json : Json} (exact : Exact (·.isFinite = true) levels json) :
    Denotes library.Writes levels (library.write json).toList json
  reads {text : String} {json : Json} (denotes : Denotes library.Reads 127 text.toList json) :
    library.read text = some json

theorem Standard.denotes_write {library : Library} (standard : library.Standard) {levels : Nat}
    {json : Json} (finite : Exact (·.isFinite = true) levels json)
    (kept : Exact library.Keeps levels json) :
    Denotes library.Reads levels (library.write json).toList json := by
  refine (standard.writes finite).imp kept ?_
  rintro text x held rfl
  rw [Reads, String.ofList_toList]
  exact held

end Library

section Printer

variable {real : List Char → Float → Prop} {levels : Nat}

theorem hexValue?_hexDigit (n : Nat) : hexValue? (hexDigit n) = some (n % 16) := by
  have all : ∀ k < 16, hexValue? (Nat.digitChar k) = some k := by decide
  exact all _ (Nat.mod_lt n (by decide))

theorem scalar?_toNat (c : Char) : scalar? c.toNat = some c := by
  have valid : c.toNat.isValidChar := c.valid
  simp [scalar?, valid]

theorem quoted_escape (c : Char) {text s : List Char} (rest : Quoted text s) :
    Quoted (escape c ++ text) (c :: s) := by
  unfold escape
  split
  case h_8 quote backslash _ _ _ _ _ =>
      split
      · have code :
            hexQuad? '0' '0' (hexDigit (c.toNat / 16)) (hexDigit c.toNat) = some c.toNat := by
          simp [hexQuad?, hexValue?_hexDigit, show hexValue? '0' = some 0 from rfl]
          omega
        exact .code code (scalar?_toNat c) rest
      · next plain => exact .plain quote backslash plain rest
  all_goals exact .escape rfl rest

theorem quoted_flatMap (s : List Char) : Quoted (s.flatMap escape) s := by
  induction s with
  | nil => exact .nil
  | cons c s ih => exact quoted_escape c ih

theorem denotes_quote (s : String) : Denotes real levels (quote s).toList (.string s) := by
  have text : (quote s).toList = '"' :: (s.toList.flatMap escape ++ ['"']) := by simp [quote]
  rw [text]
  exact .string (quoted_flatMap s.toList)

theorem blank_newLine (level : Nat) : Blank (newLine level).toList := by
  intro c among
  simp only [newLine, String.toList_ofList, List.mem_cons, List.mem_replicate] at among
  obtain rfl | ⟨_, rfl⟩ := among <;> rfl

theorem blank_nil : Blank [] := nofun

theorem Denotes.behind {before text : List Char} {json : Json} (blank : Blank before)
    (inner : Denotes real levels text json) : Denotes real levels (before ++ text) json := by
  simpa using Denotes.padded blank blank_nil inner

theorem toList_spread (level : Nat) (opening closing : String) (texts : List String) :
    ∃ blanks, Blank blanks ∧ (spread level opening closing texts).toList =
      opening.toList ++
        ([','].intercalate (texts.map fun text => (newLine (level + 1)).toList ++ text.toList) ++
          (blanks ++ closing.toList)) := by
  cases texts with
  | nil => exact ⟨[], blank_nil, by simp [spread]⟩
  | cons text texts =>
      have joined :
          (String.intercalate "," ((text :: texts).map (newLine (level + 1) ++ ·))).toList =
            [','].intercalate ((text :: texts).map fun text =>
              (newLine (level + 1)).toList ++ text.toList) := by
        rw [String.toList_intercalate, List.map_map]
        exact congrArg _ (List.map_congr_left fun _ _ => String.toList_append)
      refine ⟨_, blank_newLine level, ?_⟩
      rw [← joined, spread, if_neg (by simp), separated]
      simp only [String.toList_append, List.append_assoc]

theorem prettyItems_eq (level : Nat) (items : List Json) :
    prettyItems level items = items.map (prettyAt level) := by
  induction items with
  | nil => rfl
  | cons item items ih => rw [prettyItems, ih, List.map_cons]

theorem prettyFields_eq (level : Nat) (fields : List (String × Json)) :
    prettyFields level fields =
      fields.map fun field => quote field.1 ++ ": " ++ field.2.prettyAt level := by
  induction fields with
  | nil => rfl
  | cons field fields ih => rw [prettyFields, ih, List.map_cons]

/-- An item on a line of its own. -/
def printedItem (level : Nat) (item : Json) : List Char × Json :=
  ((newLine level).toList ++ (item.prettyAt level).toList, item)

/-- A member on a line of its own. -/
def printedMember (level : Nat) (field : String × Json) : Member where
  nameText := (newLine level).toList ++ (quote field.1).toList
  name := field.1
  valueText := [' '] ++ (field.2.prettyAt level).toList
  value := field.2

theorem isFraction_fractionText {digits : List Char} (all : ∀ c ∈ digits, c.isDigit = true) :
    IsFraction (Figures.fractionText digits) := by
  unfold Figures.fractionText
  split
  · exact .absent
  · next more => exact .digits more all

theorem isExponent_exponentText (exponent : Option Int) :
    IsExponent (Figures.exponentText exponent) := by
  cases exponent with
  | none => exact .absent
  | some e =>
      have signed :
          [if e < 0 then '-' else '+'] = ['-'] ∨ [if e < 0 then '-' else '+'] = ['+'] := by
        split <;> simp
      exact .power (.inl rfl) (.inr signed) Nat.toDigits_ne_nil fun _ => isDigit_digitsOf

theorem isReal_realText {x : Float} (finite : x.isFinite = true) : IsReal (realText x).toList := by
  obtain ⟨f, negative, means, text⟩ := exists_means finite
  have ⟨filled, digits, leading⟩ := means.proper
  rw [text, Figures.text]
  refine .mk (by cases negative <;> simp [Decimal.signText]) filled
    (fun c among => digits c (List.mem_append_left _ among)) leading
    (isFraction_fractionText fun c among => digits c (List.mem_append_right _ among))
    (isExponent_exponentText _) (means.real.imp (fun more => ?_) fun more => ?_)
  · simp [Figures.fractionText, more]
  · obtain ⟨e, held⟩ := Option.ne_none_iff_exists'.mp more
    simp [held, Figures.exponentText]

/-- The printed text of a document is one of its texts. -/
theorem Exact.denotes_prettyAt {json : Json} (exact : Exact (·.isFinite = true) levels json)
    (written : ∀ x, real (realText x).toList x) (level : Nat) :
    Denotes real levels (json.prettyAt level).toList json := by
  induction exact generalizing level with
  | null => exact .null
  | bool b => cases b <;> constructor
  | integer low high => exact .integer low high
  | real finite => exact .real (isReal_realText finite) (written _)
  | string s => exact denotes_quote s
  | @array levels items _ ih =>
      obtain ⟨blanks, blank, text⟩ := toList_spread level "[" "]" (prettyItems (level + 1) items)
      rw [prettyAt, text, prettyItems_eq]
      have all : ∀ item ∈ items.map (printedItem (level + 1)),
          Denotes real levels item.1 item.2 :=
        List.forall_mem_map.mpr fun item among => .behind (blank_newLine _) (ih item among _)
      simpa [Function.comp_def, printedItem] using Denotes.array all blank
  | @object levels fields _ ih =>
      obtain ⟨blanks, blank, text⟩ :=
        toList_spread level "\x7b" "\x7d" (prettyFields (level + 1) fields)
      rw [prettyAt, text, prettyFields_eq]
      have names : ∀ m ∈ fields.map (printedMember (level + 1)),
          Denotes real levels m.nameText (.string m.name) :=
        List.forall_mem_map.mpr fun field _ => .behind (blank_newLine _) (denotes_quote field.1)
      have values : ∀ m ∈ fields.map (printedMember (level + 1)),
          Denotes real levels m.valueText m.value :=
        List.forall_mem_map.mpr fun field among =>
          .behind (by simp [Blank, isBlank]) (ih field among _)
      simpa [Function.comp_def, printedMember, Member.text, Member.field] using
        Denotes.object names values blank

end Printer

end Logo.Json
