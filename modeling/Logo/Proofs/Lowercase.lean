import Logo.Text.Lowercase

/-!
Lowercase text is its own lowercase form. For single characters that says that no capital has
a small letter which is itself a capital, and outside ASCII it is a matter of any two ranges of
the table. Sigma needs no more than that, since the forms it takes are small letters both.
-/
namespace Logo.Text

/-- The character is its own lowercase form, wherever it stands. -/
def IsSmall (c : Char) : Prop := c ≠ 'Σ' ∧ lowerChar c = [c]

/-- The letters of ASCII. -/
theorem isSmall_toLower : ∀ n < 0x80, IsSmall (Char.ofNat n).toLower := by
  unfold IsSmall
  decide +kernel

theorem toLower_ofNat : ∀ n < 0x80, n < 'A'.toNat ∨ 'Z'.toNat < n →
    (Char.ofNat n).toLower = Char.ofNat n := by
  decide +kernel

namespace CapitalRange

/-- No small letter of the range is among the capitals of the other one. Where capitals and
small letters take turns, they are told apart by which of them have even numbers. -/
def apart (range other : CapitalRange) : Bool :=
  let low := (range.first + range.shift).toNat
  let high := (range.last + range.shift).toNat
  Nat.blt high other.first || Nat.blt other.last low ||
    low != 0 && (range.first == range.last || range.step == 2) && other.step == 2 &&
      (low + other.first) % 2 == 1

/-- The numbers that no small letter has: the capitals of ASCII, capital dotted I, capital
sigma, and what is no character. -/
def excluded : List CapitalRange :=
  [⟨'A'.toNat, 'Z'.toNat, 1, 0⟩, ⟨'İ'.toNat, 'İ'.toNat, 1, 0⟩, ⟨'Σ'.toNat, 'Σ'.toNat, 1, 0⟩,
    ⟨0xD800, 0xDFFF, 1, 0⟩]

theorem apart_capitalRanges :
    capitalRanges.all (fun range => (excluded ++ capitalRanges).all range.apart) = true := by
  decide +kernel

theorem last_capitalRanges :
    capitalRanges.all (fun range => (range.last + range.shift).toNat < 0x110000) = true := by
  decide +kernel

theorem contains_of_apart {range other : CapitalRange} (h : range.apart other = true) {code : Nat}
    (inside : range.contains code = true) :
    other.contains (code + range.shift).toNat = false := by
  simp only [contains, Bool.and_eq_true, decide_eq_true_eq, beq_iff_eq] at inside
  obtain ⟨⟨first, last⟩, spaced⟩ := inside
  simp only [apart, Bool.or_eq_true, Bool.and_eq_true, Nat.blt_eq, beq_iff_eq,
    bne_iff_ne] at h
  rw [Bool.eq_false_iff]
  intro within
  simp only [contains, Bool.and_eq_true, decide_eq_true_eq, beq_iff_eq] at within
  obtain ⟨⟨first', last'⟩, spaced'⟩ := within
  obtain (below | above) | ⟨⟨⟨low, single | double⟩, double'⟩, odd⟩ := h
  · omega
  · omega
  · rw [double'] at spaced'
    omega
  · rw [double] at spaced
    rw [double'] at spaced'
    omega

/-- A character that is none of the capitals is small. -/
theorem isSmall_of_outside {n : Nat} (top : n < 0x110000)
    (outside : ∀ other ∈ excluded ++ capitalRanges, other.contains n = false) :
    IsSmall (Char.ofNat n) := by
  have apart (first last : Nat) (h : ⟨first, last, 1, 0⟩ ∈ excluded) : n < first ∨ last < n := by
    have := outside _ (List.mem_append_left _ h)
    simp only [contains, Nat.mod_one, beq_self_eq_true, Bool.and_true, Bool.and_eq_false_iff,
      decide_eq_false_iff_not] at this
    omega
  have letter := apart 'A'.toNat 'Z'.toNat (by simp [excluded])
  have dotted := apart 'İ'.toNat 'İ'.toNat (by simp [excluded])
  have sigma := apart 'Σ'.toNat 'Σ'.toNat (by simp [excluded])
  have surrogate := apart 0xD800 0xDFFF (by simp [excluded])
  have number : (Char.ofNat n).toNat = n := by
    have valid : n.isValidChar := by
      unfold Nat.isValidChar
      omega
    rw [Char.ofNat, dif_pos valid]
    rfl
  have other (c : Char) (h : n < c.toNat ∨ c.toNat < n) : Char.ofNat n ≠ c := by
    rintro rfl
    omega
  refine ⟨other 'Σ' sigma, ?_⟩
  rw [lowerChar, if_neg (other 'İ' dotted), smallLetter, number]
  by_cases ascii : n < 0x80
  · rw [if_pos ascii, toLower_ofNat n ascii letter]
  · have unlisted : capitalRanges.find? (·.contains n) = none := by
      rw [List.find?_eq_none]
      intro range h
      simp [outside range (List.mem_append_right _ h)]
    rw [if_neg ascii, unlisted]

/-- The small letters of the table are characters, and small. -/
theorem isSmall_ofNat {range : CapitalRange} (listed : range ∈ capitalRanges) {code : Nat}
    (inside : range.contains code = true) : IsSmall (Char.ofNat (code + range.shift).toNat) := by
  apply isSmall_of_outside
  · have last := of_decide_eq_true (List.all_eq_true.mp last_capitalRanges range listed)
    simp only [contains, Bool.and_eq_true, decide_eq_true_eq] at inside
    omega
  · intro other h
    have apart := List.all_eq_true.mp (List.all_eq_true.mp apart_capitalRanges range listed)
    exact contains_of_apart (apart other h) inside

end CapitalRange

theorem isSmall_lowerChar {c d : Char} (h : c ≠ 'Σ') (among : d ∈ lowerChar c) : IsSmall d := by
  by_cases dotted : c = 'İ'
  · rw [lowerChar, if_pos dotted] at among
    have small : IsSmall 'i' ∧ IsSmall '\u0307' := by
      unfold IsSmall
      decide +kernel
    simp only [List.mem_cons, List.not_mem_nil, or_false] at among
    rcases among with rfl | rfl
    · exact small.1
    · exact small.2
  · rw [lowerChar, if_neg dotted, List.mem_singleton] at among
    rw [among, smallLetter]
    by_cases ascii : c.toNat < 0x80
    · rw [if_pos ascii, ← Char.ofNat_toNat c]
      exact isSmall_toLower c.toNat ascii
    · rw [if_neg ascii]
      cases found : capitalRanges.find? (·.contains c.toNat) with
      | some range =>
          have inside : range.contains c.toNat = true := by simpa using List.find?_some found
          exact CapitalRange.isSmall_ofNat (List.mem_of_find?_eq_some found) inside
      | none =>
          refine ⟨h, ?_⟩
          rw [lowerChar, if_neg dotted, smallLetter, if_neg ascii, found]

theorem isSmall_sigma (before after : List Char) : IsSmall (sigma before after) := by
  have small : IsSmall 'ς' ∧ IsSmall 'σ' := by
    unfold IsSmall
    decide +kernel
  unfold sigma
  split
  · exact small.1
  · exact small.2

theorem isSmall_lowerAfter {before cs : List Char} {d : Char} (h : d ∈ lowerAfter before cs) :
    IsSmall d := by
  induction cs generalizing before with
  | nil => cases h
  | cons c cs ih =>
      rw [lowerAfter, List.mem_append] at h
      rcases h with h | h
      · split at h
        · rw [List.mem_singleton.mp h]
          exact isSmall_sigma before cs
        · next other => exact isSmall_lowerChar other h
      · exact ih h

theorem lowerAfter_of_isSmall {cs : List Char} (h : ∀ c ∈ cs, IsSmall c) (before : List Char) :
    lowerAfter before cs = cs := by
  induction cs generalizing before with
  | nil => rfl
  | cons c cs ih =>
      obtain ⟨other, small⟩ := h c List.mem_cons_self
      rw [lowerAfter, if_neg other, small, ih fun d later => h d (List.mem_cons_of_mem c later)]
      rfl

theorem lowercase_lowercase (text : String) : lowercase (lowercase text) = lowercase text := by
  rw [lowercase, lowercase, String.toList_ofList]
  rw [lowerAfter_of_isSmall (fun _ => isSmall_lowerAfter)]

end Logo.Text
