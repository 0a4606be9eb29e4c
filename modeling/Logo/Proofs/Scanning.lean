import Mathlib.Data.List.Chain
import Logo.Proofs.Words

/-!
The words of a text are its longest runs of characters other than white space. What is said of
them speaks of bytes and characters only: each word stands where its position says, white space
comes between any two that follow one another, and all else is white space. Only one list of
words has these properties, and it is the one that is read.
-/
namespace Logo

namespace Text

/-- One or more characters, none of them white space. -/
def IsWord (text : String) : Prop :=
  text ≠ "" ∧ ∀ c ∈ text.toList, isWhiteSpace c = false

instance (text : String) : Decidable (IsWord text) :=
  @instDecidableAnd _ _ _ (List.decidableBAll (isWhiteSpace · = false) text.toList)

/-- The characters, each with the byte at which it begins if the first one begins at `start`. -/
def placed (start : Nat) : List Char → List (Nat × Char)
  | [] => []
  | c :: cs => (start, c) :: placed (start + c.utf8Size) cs

theorem placed_append (start : Nat) (cs ds : List Char) :
    placed start (cs ++ ds) =
      placed start cs ++ placed (start + (String.ofList cs).utf8ByteSize) ds := by
  induction cs generalizing start with
  | nil => rfl
  | cons c cs ih =>
      rw [List.cons_append, placed, ih, placed, List.cons_append, utf8ByteSize_cons, Nat.add_assoc]

theorem bounds_of_placed {start : Nat} {cs : List Char} {place : Nat × Char}
    (h : place ∈ placed start cs) :
    start ≤ place.1 ∧ place.1 < start + (String.ofList cs).utf8ByteSize := by
  induction cs generalizing start with
  | nil => cases h
  | cons c cs ih =>
      have size := c.utf8Size_pos
      rw [utf8ByteSize_cons]
      rcases List.mem_cons.mp h with rfl | h
      · exact ⟨Nat.le_refl _, by dsimp only; omega⟩
      · have later := ih h
        omega

theorem mem_of_placed {start : Nat} {cs : List Char} {place : Nat × Char}
    (h : place ∈ placed start cs) : place.2 ∈ cs := by
  induction cs generalizing start with
  | nil => cases h
  | cons c cs ih =>
      rcases List.mem_cons.mp h with rfl | h
      · exact List.mem_cons_self
      · exact List.mem_cons_of_mem _ (ih h)

theorem bytes_between (front word back : String) :
    (front ++ word ++ back).toByteArray.extract front.utf8ByteSize
      (front.utf8ByteSize + word.utf8ByteSize) = word.toByteArray := by
  rw [String.append_assoc, String.toByteArray_append, String.toByteArray_append]
  calc
    _ = (front.toByteArray ++ (word.toByteArray ++ back.toByteArray)).extract
          (front.utf8ByteSize + 0) (front.utf8ByteSize + word.utf8ByteSize) := rfl
    _ = (word.toByteArray ++ back.toByteArray).extract 0 word.utf8ByteSize :=
        ByteArray.extract_append_size_add' String.size_toByteArray.symm
    _ = word.toByteArray := ByteArray.extract_append_eq_left String.size_toByteArray.symm

/-- At every boundary but the last one a character begins. -/
theorem exists_placed {text : String} {offset : Nat}
    (h : String.Pos.Raw.IsValid text ⟨offset⟩) (within : offset < text.utf8ByteSize) :
    ∃ c, (offset, c) ∈ placed 0 text.toList := by
  obtain ⟨front, back, rfl, same⟩ := String.Pos.Raw.isValid_iff_exists_append.mp h
  have start : offset = front.utf8ByteSize := congrArg String.Pos.Raw.byteIdx same
  rw [String.toList_append, placed_append]
  cases chars : back.toList with
  | nil =>
      rw [String.toList_eq_nil_iff.mp chars, String.append_empty] at within
      omega
  | cons c cs =>
      refine ⟨c, List.mem_append_right _ ?_⟩
      rw [String.ofList_toList, Nat.zero_add, start]
      exact List.mem_cons_self

end Text

namespace Token

/-- The bytes of the text at the position, from one boundary between characters to another, are
those of the word. -/
structure Occupies (token : Token) (text : String) : Prop where
  ordered : token.position.start ≤ token.position.last
  first : String.Pos.Raw.IsValid text ⟨token.position.start⟩
  behind : String.Pos.Raw.IsValid text ⟨token.position.last + 1⟩
  bytes : text.toByteArray.extract token.position.start (token.position.last + 1) =
    token.text.toByteArray

/-- White space stands behind the first word and before the second one. -/
def Before (places : List (Nat × Char)) (a b : Token) : Prop :=
  ∃ place ∈ places, Text.isWhiteSpace place.2 = true ∧
    a.position.last < place.1 ∧ place.1 < b.position.start

/-- What it is for tokens to be the words of a text. -/
structure Divide (text : String) (tokens : List Token) : Prop where
  words : ∀ token ∈ tokens, Text.IsWord token.text
  occupy : ∀ token ∈ tokens, token.Occupies text
  apart : tokens.IsChain (Before (Text.placed 0 text.toList))
  outside : ∀ place ∈ Text.placed 0 text.toList,
    (∀ token ∈ tokens, ¬ (token.position.start ≤ place.1 ∧ place.1 ≤ token.position.last)) →
    Text.isWhiteSpace place.2 = true

theorem occupies_of_standsIn {token : Token} {text : String} (h : token.StandsIn text)
    (some : token.text ≠ "") : token.Occupies text := by
  obtain ⟨front, back, rfl, start, last⟩ := h
  have size : 0 < token.text.utf8ByteSize :=
    Nat.pos_of_ne_zero (mt String.utf8ByteSize_eq_zero_iff.mp some)
  refine ⟨by omega, ?_, ?_, ?_⟩
  · refine String.Pos.Raw.isValid_iff_exists_append.mpr ⟨front, token.text ++ back, ?_, ?_⟩
    · rw [String.append_assoc]
    · exact String.Pos.Raw.ext start
  · refine String.Pos.Raw.isValid_iff_exists_append.mpr ⟨front ++ token.text, back, rfl, ?_⟩
    refine String.Pos.Raw.ext (last.trans ?_)
    rw [String.byteIdx_rawEndPos, String.utf8ByteSize_append]
  · rw [start, last, Text.bytes_between]

theorem Occupies.standsIn {token : Token} {text : String} (h : token.Occupies text) :
    token.StandsIn text := by
  obtain ⟨ordered, first, behind, bytes⟩ := h
  obtain ⟨whole, back, rfl, same⟩ := String.Pos.Raw.isValid_iff_exists_append.mp behind
  have last : token.position.last + 1 = whole.utf8ByteSize :=
    congrArg String.Pos.Raw.byteIdx same
  rcases String.Pos.Raw.isValid_append.mp first with inside | ⟨beyond, _⟩
  · obtain ⟨front, word, rfl, begins⟩ := String.Pos.Raw.isValid_iff_exists_append.mp inside
    have start : token.position.start = front.utf8ByteSize :=
      congrArg String.Pos.Raw.byteIdx begins
    rw [String.utf8ByteSize_append] at last
    have word_eq : word = token.text := by
      rw [← String.toByteArray_inj, ← bytes, start, last, Text.bytes_between]
    refine ⟨front, back, by rw [word_eq], start, by rw [← word_eq, last]⟩
  · have : whole.utf8ByteSize ≤ token.position.start := beyond
    omega

/-- The position settles which word it is. -/
theorem Occupies.eq {a b : Token} {text : String} (h : a.Occupies text) (h' : b.Occupies text)
    (start : b.position.start = a.position.start) (last : b.position.last = a.position.last) :
    b = a := by
  obtain ⟨word, first, final⟩ := a
  obtain ⟨word', first', final'⟩ := b
  cases start
  cases last
  have same : word' = word := String.toByteArray_inj.mp (h'.bytes.symm.trans h.bytes)
  rw [same]

theorem isWord_of_ofWord {start : Nat} {word : List Char} {token : Token}
    (dark : ∀ c ∈ word, Text.isWhiteSpace c = false) (h : token ∈ ofWord start word) :
    Text.IsWord token.text := by
  cases word with
  | nil => cases h
  | cons c word =>
      rw [List.mem_singleton.mp h]
      refine ⟨by simp, fun d among => dark d ?_⟩
      rwa [String.toList_ofList, List.mem_reverse] at among

theorem isWord_of_scan {start : Nat} {word cs : List Char} {token : Token}
    (dark : ∀ c ∈ word, Text.isWhiteSpace c = false) (h : token ∈ scan start word cs) :
    Text.IsWord token.text := by
  induction cs generalizing start word with
  | nil => exact isWord_of_ofWord dark h
  | cons c cs ih =>
      simp only [scan] at h
      split at h
      · rcases List.mem_append.mp h with h | h
        · exact isWord_of_ofWord dark h
        · exact ih (List.forall_mem_nil _) h
      · next other =>
          refine ih ?_ h
          rw [List.forall_mem_cons]
          exact ⟨by simpa using other, dark⟩

/-- The word that is under way covers its characters. -/
theorem covered_of_ofWord {start : Nat} {word : List Char} {place : Nat × Char}
    (h : place ∈ Text.placed start word.reverse) :
    ∃ token ∈ ofWord start word,
      token.position.start ≤ place.1 ∧ place.1 ≤ token.position.last := by
  have bounds := Text.bounds_of_placed h
  cases word with
  | nil => cases h
  | cons c word =>
      refine ⟨_, List.mem_singleton.mpr rfl, bounds.1, ?_⟩
      dsimp only
      omega

theorem covered_of_scan (start : Nat) (word : List Char) {cs : List Char} {place : Nat × Char}
    (h : place ∈ Text.placed start (word.reverse ++ cs))
    (dark : Text.isWhiteSpace place.2 = false) :
    ∃ token ∈ scan start word cs,
      token.position.start ≤ place.1 ∧ place.1 ≤ token.position.last := by
  induction cs generalizing start word with
  | nil =>
      rw [List.append_nil] at h
      exact covered_of_ofWord h
  | cons c cs ih =>
      simp only [scan]
      split
      · next white =>
          rw [Text.placed_append, Text.utf8ByteSize_reverse, List.mem_append] at h
          rcases h with h | h
          · obtain ⟨token, among, covers⟩ := covered_of_ofWord h
            exact ⟨token, List.mem_append_left _ among, covers⟩
          · rcases List.mem_cons.mp h with rfl | h
            · cases dark.symm.trans white
            · obtain ⟨token, among, covers⟩ := ih _ [] h
              exact ⟨token, List.mem_append_right _ among, covers⟩
      · refine ih start (c :: word) ?_
        simpa using h

theorem start_le_of_ofWord {start : Nat} {word : List Char} {token : Token}
    (h : token ∈ ofWord start word) : start ≤ token.position.start := by
  cases word with
  | nil => cases h
  | cons c word => rw [List.mem_singleton.mp h]

theorem start_le_of_scan {start : Nat} {word cs : List Char} {token : Token}
    (h : token ∈ scan start word cs) : start ≤ token.position.start := by
  induction cs generalizing start word with
  | nil => exact start_le_of_ofWord h
  | cons c cs ih =>
      simp only [scan] at h
      split at h
      · rcases List.mem_append.mp h with h | h
        · exact start_le_of_ofWord h
        · have later := ih h
          omega
      · exact ih h

theorem Before.mono {places more : List (Nat × Char)} {a b : Token} (h : Before places a b)
    (sub : places ⊆ more) : Before more a b := by
  obtain ⟨place, among, between⟩ := h
  exact ⟨place, sub among, between⟩

theorem isChain_scan (start : Nat) (word cs : List Char) :
    (scan start word cs).IsChain (Before (Text.placed start (word.reverse ++ cs))) := by
  induction cs generalizing start word with
  | nil => cases word <;> simp [scan, ofWord]
  | cons c cs ih =>
      simp only [scan]
      split
      · next white =>
          -- the white space that ends the word divides it from all that follows
          have places : Text.placed start (word.reverse ++ c :: cs) =
              Text.placed start word.reverse ++
                (start + (String.ofList word).utf8ByteSize, c) ::
                Text.placed (start + (String.ofList word).utf8ByteSize + c.utf8Size) cs := by
            rw [Text.placed_append, Text.utf8ByteSize_reverse, Text.placed]
          have later : Text.placed (start + (String.ofList word).utf8ByteSize + c.utf8Size) cs ⊆
              Text.placed start (word.reverse ++ c :: cs) := by
            rw [places]
            simp
          have rest := (ih (start + (String.ofList word).utf8ByteSize + c.utf8Size) []).imp
            fun _ _ before => before.mono later
          cases word with
          | nil => exact rest
          | cons d word =>
              refine rest.cons fun b first => ?_
              have behind := start_le_of_scan (List.mem_of_mem_head? first)
              have size := size_pos d word
              have gap := c.utf8Size_pos
              rw [places]
              refine ⟨_, List.mem_append_right _ List.mem_cons_self, white, ?_, ?_⟩
              · rw [Text.utf8ByteSize_reverse] at size ⊢
                dsimp only
                omega
              · dsimp only
                omega
      · have same : word.reverse ++ c :: cs = (c :: word).reverse ++ cs := by simp
        rw [same]
        exact ih start (c :: word)

end Token

theorem divide_tokenize (text : String) : Token.Divide text (tokenize text) := by
  have words : ∀ token ∈ tokenize text, Text.IsWord token.text :=
    fun _ h => Token.isWord_of_scan (List.forall_mem_nil _) h
  refine ⟨words, ?_, ?_, ?_⟩
  · intro token among
    exact Token.occupies_of_standsIn (standsIn_of_tokenize among) (words token among).1
  · exact Token.isChain_scan 0 [] text.toList
  · intro place among uncovered
    rw [← Bool.not_eq_false]
    intro dark
    obtain ⟨token, found, covers⟩ := Token.covered_of_scan 0 [] among dark
    exact uncovered token found covers

/-- A word by itself is read as a whole. -/
theorem texts_of_word {word : String} (h : Text.IsWord word) :
    (tokenize word).map Token.text = [word] := by
  have scanned (start : Nat) (taken cs : List Char)
      (dark : ∀ c ∈ cs, Text.isWhiteSpace c = false) :
      Token.scan start taken cs = Token.ofWord start (cs.reverse ++ taken) := by
    induction cs generalizing taken with
    | nil => rfl
    | cons c cs ih =>
        obtain ⟨first, rest⟩ := List.forall_mem_cons.mp dark
        rw [Token.scan, first, List.reverse_cons, List.append_assoc]
        exact ih (c :: taken) rest
  rw [tokenize, scanned 0 [] word.toList h.2, List.append_nil]
  cases chars : word.toList.reverse with
  | nil => exact absurd (String.toList_eq_nil_iff.mp (List.reverse_eq_nil_iff.mp chars)) h.1
  | cons c cs =>
      have back : (c :: cs).reverse = word.toList := by rw [← chars, List.reverse_reverse]
      simp only [Token.ofWord, List.map_cons, List.map_nil, back, String.ofList_toList]

/-- The words one after the other, each with a space behind it. -/
def Text.spaced (words : List String) : String := String.join (words.map (· ++ " "))

theorem texts_of_spaced {words : List String} (h : ∀ word ∈ words, Text.IsWord word) :
    (tokenize (Text.spaced words)).map Token.text = words := by
  induction words with
  | nil => rfl
  | cons word words ih =>
      obtain ⟨first, rest⟩ := List.forall_mem_cons.mp h
      have joined : Text.spaced (word :: words) =
          word ++ String.singleton ' ' ++ Text.spaced words := by
        rw [Text.spaced, List.map_cons, String.join_cons]
        rfl
      have texts (n : Nat) (tokens : List Token) :
          (tokens.map (Token.shift n)).map Token.text = tokens.map Token.text := by
        rw [List.map_map]
        rfl
      rw [joined, tokenize_joined word _ (by decide), List.map_append, texts_of_word first,
        texts, ih rest]
      rfl

namespace Token

theorem Before.trans {places : List (Nat × Char)} {a b c : Token} (h : Before places a b)
    (ordered : b.position.start ≤ b.position.last) (h' : Before places b c) :
    Before places a c := by
  obtain ⟨place, among, white, behind, before⟩ := h
  obtain ⟨_, _, _, behind', before'⟩ := h'
  exact ⟨place, among, white, behind, by omega⟩

theorem Before.last_lt {places : List (Nat × Char)} {a b : Token} (h : Before places a b) :
    a.position.last < b.position.start := by
  obtain ⟨_, _, _, behind, before⟩ := h
  omega

theorem pairwise_of_isChain {places : List (Nat × Char)} {tokens : List Token}
    (ordered : ∀ token ∈ tokens, token.position.start ≤ token.position.last)
    (h : tokens.IsChain (Before places)) : tokens.Pairwise (Before places) := by
  induction h with
  | nil => exact .nil
  | singleton a => exact List.pairwise_singleton _ a
  | @cons_cons a b rest next chain ih =>
      obtain ⟨_, ordered⟩ := List.forall_mem_cons.mp ordered
      have others := ih ordered
      refine List.pairwise_cons.mpr ⟨?_, others⟩
      rw [List.forall_mem_cons]
      refine ⟨next, fun c among => ?_⟩
      exact next.trans (ordered b List.mem_cons_self) ((List.pairwise_cons.mp others).1 c among)

namespace Divide

variable {text : String} {tokens others : List Token} {a b : Token}

theorem pairwise (h : Divide text tokens) :
    tokens.Pairwise (Before (Text.placed 0 text.toList)) :=
  pairwise_of_isChain (fun token among => (h.occupy token among).ordered) h.apart

/-- Of two words one stands before the other. -/
theorem before_or (h : Divide text tokens) (first : a ∈ tokens) (second : b ∈ tokens)
    (apart : a ≠ b) :
    Before (Text.placed 0 text.toList) a b ∨ Before (Text.placed 0 text.toList) b a := by
  let places := Text.placed 0 text.toList
  have either : tokens.Pairwise fun a b => Before places a b ∨ Before places b a :=
    h.pairwise.imp Or.inl
  have : Std.Symm fun a b => Before places a b ∨ Before places b a := ⟨fun _ _ => Or.symm⟩
  exact either.forall first second apart

theorem covered (h : Divide text tokens) {place : Nat × Char}
    (among : place ∈ Text.placed 0 text.toList) (dark : Text.isWhiteSpace place.2 = false) :
    ∃ token ∈ tokens, token.position.start ≤ place.1 ∧ place.1 ≤ token.position.last := by
  by_contra none
  have white := h.outside place among fun token found covers => none ⟨token, found, covers⟩
  cases dark.symm.trans white

/-- What a word covers is not white space. -/
theorem dark (h : Divide text tokens) (found : a ∈ tokens) {place : Nat × Char}
    (among : place ∈ Text.placed 0 text.toList) (start : a.position.start ≤ place.1)
    (last : place.1 ≤ a.position.last) : Text.isWhiteSpace place.2 = false := by
  obtain ⟨front, back, rfl, begins, ends⟩ := (h.occupy a found).standsIn
  simp only [String.toList_append, Text.placed_append, List.mem_append, String.ofList_append,
    String.utf8ByteSize_append, String.ofList_toList, Nat.zero_add] at among
  rcases among with (among | among) | among
  · have bounds := Text.bounds_of_placed among
    rw [String.ofList_toList] at bounds
    omega
  · exact (h.words a found).2 _ (Text.mem_of_placed among)
  · have bounds := Text.bounds_of_placed among
    omega

theorem last_lt_size (h : Divide text tokens) (found : a ∈ tokens) :
    a.position.last < text.utf8ByteSize := by
  obtain ⟨front, back, rfl, begins, ends⟩ := (h.occupy a found).standsIn
  simp only [String.utf8ByteSize_append]
  omega

/-- A word that covers the first character of another one does not begin before it. -/
theorem start_le (h : Divide text tokens) (h' : Divide text others) (found : a ∈ tokens)
    (found' : b ∈ others) (start : b.position.start ≤ a.position.start)
    (last : a.position.start ≤ b.position.last) : a.position.start ≤ b.position.start := by
  by_contra later
  have ordered := (h'.occupy b found').ordered
  obtain ⟨c, place⟩ := Text.exists_placed (h'.occupy b found').first
    (Nat.lt_of_le_of_lt ordered (h'.last_lt_size found'))
  obtain ⟨earlier, among, begins, ends⟩ :=
    h.covered place (h'.dark found' place (Nat.le_refl _) ordered)
  dsimp only at begins ends
  have apart : earlier ≠ a := by
    rintro rfl
    exact later begins
  rcases h.before_or among found apart with before | before
  · -- white space before the one word, but inside the other one
    obtain ⟨gap, held, white, behind, ahead⟩ := before
    have dark := h'.dark found' held (by omega) (by omega)
    cases dark.symm.trans white
  · have order := before.last_lt
    have ordered := (h.occupy a found).ordered
    omega

/-- Nor does it end behind it, if the two begin together. -/
theorem last_le (h : Divide text tokens) (h' : Divide text others) (found : a ∈ tokens)
    (found' : b ∈ others) (start : b.position.start = a.position.start) :
    b.position.last ≤ a.position.last := by
  by_contra longer
  have ordered := (h.occupy a found).ordered
  have size := h'.last_lt_size found'
  obtain ⟨c, place⟩ := Text.exists_placed (h.occupy a found).behind (by omega)
  obtain ⟨next, among, begins, ends⟩ :=
    h.covered place (h'.dark found' place (by dsimp only; omega) (by dsimp only; omega))
  dsimp only at begins ends
  have apart : a ≠ next := by
    rintro rfl
    omega
  rcases h.before_or found among apart with before | before
  · obtain ⟨gap, held, white, behind, ahead⟩ := before
    omega
  · have order := before.last_lt
    omega

theorem mem_of_mem (h : Divide text tokens) (h' : Divide text others) (found : a ∈ tokens) :
    a ∈ others := by
  have ordered := (h.occupy a found).ordered
  obtain ⟨c, place⟩ := Text.exists_placed (h.occupy a found).first
    (Nat.lt_of_le_of_lt ordered (h.last_lt_size found))
  obtain ⟨b, found', begins, ends⟩ :=
    h'.covered place (h.dark found place (Nat.le_refl _) ordered)
  have start : b.position.start = a.position.start :=
    Nat.le_antisymm begins (h.start_le h' found found' begins ends)
  have last : b.position.last = a.position.last :=
    Nat.le_antisymm (h.last_le h' found found' start) (h'.last_le h found' found start.symm)
  exact (h.occupy a found).eq (h'.occupy b found') start last ▸ found'

theorem nodup (h : Divide text tokens) : tokens.Nodup := by
  refine h.pairwise.imp_of_mem fun {a b} found _ before => ?_
  have ordered := (h.occupy a found).ordered
  have order := before.last_lt
  rintro rfl
  omega

/-- The properties leave no choice. -/
theorem unique (h : Divide text tokens) (h' : Divide text others) : tokens = others := by
  have perm : tokens.Perm others :=
    (List.perm_ext_iff_of_nodup h.nodup h'.nodup).mpr
      fun a => ⟨h.mem_of_mem h', h'.mem_of_mem h⟩
  refine perm.eq_of_pairwise ?_ h.pairwise h'.pairwise
  intro a b found found' before before'
  have order := before.last_lt
  have order' := before'.last_lt
  have ordered := (h.occupy a found).ordered
  have ordered' := (h'.occupy b found').ordered
  omega

end Divide

end Token

/-- The words that are read are those that divide the text: each of them has one or more
characters, none of them white space, and its bytes are those between two boundaries of the text;
white space stands between any two that follow one another, so that positions increase; and every
character outside of them is white space. No other list of words has these properties. -/
theorem tokenize_eq_iff (text : String) (tokens : List Token) :
    tokenize text = tokens ↔ Token.Divide text tokens := by
  constructor
  · rintro rfl
    exact divide_tokenize text
  · intro h
    exact (divide_tokenize text).unique h

example : tokenize "fd\u3000é\n" = [⟨"fd", 0, 1⟩, ⟨"é", 5, 6⟩] := by decide +kernel

end Logo
