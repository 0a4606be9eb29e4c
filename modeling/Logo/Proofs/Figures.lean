import Mathlib.Data.List.TakeWhile
import Logo.Json.Printer
import Logo.Proofs.Bits
import Logo.Proofs.Numerals

/-!
The text of a number. Whether a number is written in full or with an exponent, its text is made
of the same parts: whole digits, digits behind the point, an exponent. From these the reader
finds the decimal again, whatever follows, and the decimal gives back the number.
-/
namespace Logo.Json

open Decimal

/-- What follows a number and is not taken for a part of it. -/
def Stops (rest : List Char) : Prop :=
  ∀ c ∈ rest.head?, c.isDigit = false ∧ c ≠ '.' ∧ c ≠ 'e' ∧ c ≠ 'E'

section Rest

variable {cs digits left rest : List Char}

theorem readDigits_append (cs : List Char) (ends : ∀ c ∈ rest.head?, c.isDigit = false) :
    readDigits (cs ++ rest) = ((readDigits cs).1, (readDigits cs).2 ++ rest) := by
  induction cs with
  | nil =>
      cases rest with
      | nil => rfl
      | cons c rest =>
          have other : isDigit c = false := ends c rfl
          simp [readDigits, other]
  | cons c cs ih =>
      by_cases digit : isDigit c = true
      · simpa [readDigits, digit] using ih
      · simp [readDigits, digit]

theorem readSome_append (read : readSome cs = some (digits, left))
    (ends : ∀ c ∈ rest.head?, c.isDigit = false) :
    readSome (cs ++ rest) = some (digits, left ++ rest) := by
  simp only [readSome, readDigits_append cs ends, Option.ite_none_left_eq_some, Option.some.injEq,
    Prod.mk.injEq] at read ⊢
  exact ⟨read.1, read.2.1, by rw [read.2.2]⟩

theorem readFraction_plain (other : cs.head? ≠ some '.') : readFraction cs = some ([], cs) := by
  rw [readFraction]
  rintro cs rfl
  exact other rfl

theorem readFraction_append (read : readFraction cs = some (digits, left))
    (ends : ∀ c ∈ rest.head?, c.isDigit = false ∧ c ≠ '.') :
    readFraction (cs ++ rest) = some (digits, left ++ rest) := by
  cases cs with
  | nil =>
      cases read
      exact readFraction_plain fun dot => (ends '.' dot).2 rfl
  | cons c cs =>
      by_cases dot : c = '.'
      · subst dot
        exact readSome_append read fun c first => (ends c first).1
      · have plain (cs : List Char) : (c :: cs).head? ≠ some '.' := by simpa using dot
        rw [readFraction_plain (plain cs)] at read
        cases read
        exact readFraction_plain (plain _)

theorem splitSign_append (filled : cs ≠ []) :
    splitSign (cs ++ rest) = ((splitSign cs).1, (splitSign cs).2 ++ rest) := by
  obtain ⟨c, cs, rfl⟩ := List.exists_cons_of_ne_nil filled
  by_cases minus : c = '-'
  · rw [minus]
    rfl
  · by_cases plus : c = '+'
    · rw [plus]
      rfl
    · simp [splitSign, minus, plus]

theorem readPower_append {n : Int} (read : readPower cs = some (n, left))
    (ends : ∀ c ∈ rest.head?, c.isDigit = false) :
    readPower (cs ++ rest) = some (n, left ++ rest) := by
  have filled : cs ≠ [] := by
    rintro rfl
    cases read
  simp only [readPower, splitSign_append filled, Option.map_eq_some_iff] at read ⊢
  obtain ⟨⟨digits, after⟩, found, same⟩ := read
  refine ⟨_, readSome_append found ends, ?_⟩
  cases same
  rfl

theorem readExponent_append {exponent : Option Int} (read : readExponent cs = some (exponent, left))
    (stops : Stops rest) : readExponent (cs ++ rest) = some (exponent, left ++ rest) := by
  cases cs with
  | nil =>
      cases read
      cases rest with
      | nil => rfl
      | cons c rest =>
          have ⟨_, _, small, capital⟩ := stops c rfl
          exact if_neg (not_or.mpr ⟨small, capital⟩)
  | cons c cs =>
      rw [List.cons_append, readExponent] at *
      by_cases mark : c = 'e' ∨ c = 'E'
      · rw [if_pos mark, Option.map_eq_some_iff] at read ⊢
        obtain ⟨⟨n, after⟩, found, same⟩ := read
        cases same
        exact ⟨_, readPower_append found fun c first => (stops c first).1, rfl⟩
      · rw [if_neg mark] at read ⊢
        cases read
        rfl

theorem readFigures_append {f : Figures} (read : readFigures cs = some (f, left))
    (stops : Stops rest) : readFigures (cs ++ rest) = some (f, left ++ rest) := by
  unfold readFigures at read ⊢
  rw [readDigits_append cs fun c first => (stops c first).1]
  dsimp only at read ⊢
  split at read
  · cases read
  · next allowed =>
      rw [if_neg allowed]
      obtain ⟨⟨fraction, behind⟩, fractional, read⟩ := Option.bind_eq_some_iff.mp read
      obtain ⟨⟨exponent, after⟩, powered, read⟩ := Option.bind_eq_some_iff.mp read
      cases read
      rw [readFraction_append fractional fun c first => ⟨(stops c first).1, (stops c first).2.1⟩,
        Option.bind_eq_bind, Option.bind_some, readExponent_append powered stops]
      rfl

theorem readUnsigned_append {negative : Bool} {json : Json}
    (read : readUnsigned negative cs = some (json, left)) (stops : Stops rest) :
    readUnsigned negative (cs ++ rest) = some (json, left ++ rest) := by
  obtain ⟨⟨f, after⟩, found, read⟩ := Option.bind_eq_some_iff.mp read
  obtain ⟨value, meant, read⟩ := Option.bind_eq_some_iff.mp read
  cases read
  rw [readUnsigned, readFigures_append found stops, Option.bind_eq_bind, Option.bind_some]
  dsimp only
  rw [meant]
  rfl

theorem readNumber_plain (other : cs.head? ≠ some '-') : readNumber cs = readUnsigned false cs := by
  rw [readNumber]
  rintro cs rfl
  exact other rfl

/-- What follows a number has no part in it. -/
theorem readNumber_append {json : Json} (read : readNumber cs = some (json, left))
    (stops : Stops rest) : readNumber (cs ++ rest) = some (json, left ++ rest) := by
  cases cs with
  | nil => cases read
  | cons c cs =>
      by_cases minus : c = '-'
      · subst minus
        exact readUnsigned_append read stops
      · have plain (cs : List Char) : (c :: cs).head? ≠ some '-' := by simpa using minus
        rw [readNumber_plain (plain cs)] at read
        rw [List.cons_append, readNumber_plain (plain _)]
        exact readUnsigned_append read stops

end Rest

namespace Figures

def fractionText (digits : List Char) : List Char := if digits = [] then [] else '.' :: digits

def exponentText : Option Int → List Char
  | none => []
  | some e => 'e' :: (if e < 0 then '-' else '+') :: digitsOf e.natAbs

def text (f : Figures) : List Char :=
  f.whole ++ (fractionText f.fraction ++ exponentText f.exponent)

/-- Zeros do not lead, and no digit is missing. -/
structure Proper (f : Figures) : Prop where
  filled : f.whole ≠ []
  digits : ∀ c ∈ f.whole ++ f.fraction, c.isDigit = true
  leading : f.whole.head? = some '0' → f.whole.length = 1

theorem Proper.head?_text {f : Figures} (proper : f.Proper) : f.text.head? ≠ some '-' := by
  obtain ⟨c, tail, first⟩ := List.exists_cons_of_ne_nil proper.filled
  have digit : c.isDigit = true := proper.digits c (by simp [first])
  rw [text, first]
  rintro ⟨⟩
  exact absurd digit (by decide)

end Figures

open Figures

theorem isDigit_digitsOf {n : Nat} {c : Char} (h : c ∈ digitsOf n) : c.isDigit = true :=
  Nat.isDigit_of_mem_toDigits (by decide) (by decide) h

theorem readDigits_self {digits : List Char} (all : ∀ c ∈ digits, c.isDigit = true) :
    readDigits digits = (digits, []) :=
  Prod.ext (List.takeWhile_eq_self_iff.mpr all) (List.dropWhile_eq_nil_iff.mpr all)

theorem readSome_self {digits : List Char} (filled : digits ≠ [])
    (all : ∀ c ∈ digits, c.isDigit = true) : readSome digits = some (digits, []) := by
  simp [readSome, readDigits_self all, filled]

theorem head?_exponentText (exponent : Option Int) :
    ∀ c ∈ (exponentText exponent).head?, c.isDigit = false ∧ c ≠ '.' := by
  cases exponent with
  | none => exact nofun
  | some e =>
      rintro c ⟨⟩
      decide

theorem head?_fractionText (fraction : List Char) (exponent : Option Int) :
    ∀ c ∈ (fractionText fraction ++ exponentText exponent).head?, c.isDigit = false := by
  unfold fractionText
  split
  · exact fun c first => (head?_exponentText exponent c first).1
  · rintro c ⟨⟩
    decide

theorem readFraction_text {fraction : List Char} (all : ∀ c ∈ fraction, c.isDigit = true) :
    readFraction (fractionText fraction) = some (fraction, []) := by
  unfold fractionText
  split
  · next none =>
      rw [none]
      rfl
  · next more => exact readSome_self more all

theorem readExponent_text (exponent : Option Int) :
    readExponent (exponentText exponent) = some (exponent, []) := by
  cases exponent with
  | none => rfl
  | some e =>
      have read : readSome (digitsOf e.natAbs) = some (digitsOf e.natAbs, []) :=
        readSome_self Nat.toDigits_ne_nil fun _ => isDigit_digitsOf
      have value : continueNatural 0 (digitsOf e.natAbs) = e.natAbs := by
        rw [continueNatural_eq, digitsOf, Nat.ofDigitChars_ten_toDigits]
      have power : readPower ((if e < 0 then '-' else '+') :: digitsOf e.natAbs) =
          some (e, []) := by
        by_cases negative : e < 0
        · have same : -(e.natAbs : Int) = e := by omega
          rw [if_pos negative]
          simp only [readPower, splitSign, read, value, Option.map_some, if_true, same]
        · have same : (e.natAbs : Int) = e := by omega
          rw [if_neg negative]
          simp only [readPower, splitSign, read, value, Option.map_some, Bool.false_eq_true,
            if_false, same]
      rw [exponentText, readExponent, if_pos (.inl rfl), power]
      rfl

theorem readFigures_text {f : Figures} (proper : f.Proper) : readFigures f.text = some (f, []) := by
  have ⟨filled, digits, leading⟩ := proper
  have whole := readDigits_self fun c among => digits c (List.mem_append_left _ among)
  have fraction := readFraction_text fun c among => digits c (List.mem_append_right _ among)
  have allowed :
      ¬ (f.whole.isEmpty || f.whole.head? == some '0' && f.whole.length != 1) = true := by
    simpa [filled] using leading
  rw [readFigures, text, readDigits_append _ (head?_fractionText f.fraction f.exponent), whole]
  dsimp only
  rw [if_neg allowed, List.nil_append,
    readFraction_append fraction (head?_exponentText f.exponent), Option.bind_eq_bind,
    Option.bind_some, List.nil_append, readExponent_text]
  rfl

/-- How a number is read whose text is made of its parts. -/
theorem readNumber_text (negative : Bool) {f : Figures} (proper : f.Proper) :
    readNumber ((signText negative).toList ++ f.text) = (f.json? negative).map (·, []) := by
  have unsigned :
      readNumber ((signText negative).toList ++ f.text) = readUnsigned negative f.text := by
    cases negative with
    | true => rfl
    | false => exact readNumber_plain proper.head?_text
  rw [unsigned, readUnsigned, readFigures_text proper, Option.bind_eq_bind, Option.bind_some,
    Option.map_eq_bind]
  rfl

theorem Figures.number_eq (f : Figures) :
    f.number = Nat.ofDigitChars 10 (f.whole ++ f.fraction) 0 :=
  continueNatural_eq ..

theorem isDigit_zeros {n : Nat} {c : Char} (h : c ∈ zeros n) : c.isDigit = true := by
  rw [List.eq_of_mem_replicate h]
  rfl

/-- Only zero itself begins with a zero. -/
theorem head?_digitsOf {n : Nat} (h : n ≠ 0) : (digitsOf n).head? ≠ some '0' := by
  unfold digitsOf
  induction n using Nat.strongRecOn with
  | _ n ih =>
      by_cases small : n < 10
      · rw [Nat.toDigits_of_lt_base small]
        simp [h]
      · rw [Nat.toDigits_of_base_le (by decide) (by omega), List.head?_append,
          Option.or_of_isSome (by simp [Nat.toDigits_ne_nil])]
        exact ih (n / 10) (by omega) (by omega)

/-- The digits of a number other than zero. -/
structure Spells (digits : List Char) (n : Nat) : Prop where
  filled : digits ≠ []
  all : ∀ c ∈ digits, c.isDigit = true
  value : Nat.ofDigitChars 10 digits 0 = n
  first : digits.head? ≠ some '0'

theorem spells_digitsOf {n : Nat} (h : n ≠ 0) : Spells (digitsOf n) n where
  filled := Nat.toDigits_ne_nil
  all _ among := isDigit_digitsOf among
  value := Nat.ofDigitChars_ten_toDigits
  first := head?_digitsOf h

/-- A decimal in figures, to which zeros may have been added. -/
structure Figures.Shows (f : Figures) (s : Scaled) : Prop where
  proper : f.Proper
  real : f.fraction ≠ [] ∨ f.exponent ≠ none
  value : ∃ zeros : Nat, f.number = s.digits * 10 ^ zeros ∧ f.scale = s.exponent - zeros

section Layout

variable {s : Scaled}

/-- The digits of a decimal with a point somewhere after the first. -/
theorem shows_split {digits : List Char} {n : Nat} {exponent : Option Int}
    (all : ∀ c ∈ digits, c.isDigit = true) (value : Nat.ofDigitChars 10 digits 0 = s.digits)
    (leading : digits.head? = some '0' → n = 1) (inside : 0 < n ∧ n ≤ digits.length)
    (real : n < digits.length ∨ exponent ≠ none)
    (scale : exponent.getD 0 - (digits.length - n) = s.exponent) :
    (Figures.mk (digits.take n) (digits.drop n) exponent).Shows s where
  proper := by
    have filled : digits ≠ [] := List.ne_nil_of_length_pos (by omega)
    refine ⟨?_, by simpa using all, ?_⟩
    · simp [filled]
      omega
    · intro zero
      rw [List.head?_take, if_neg (by omega)] at zero
      simp [leading zero]
      omega
  real := by simpa using real
  value := by
    refine ⟨0, by simp [number_eq, value], ?_⟩
    simp only [Figures.scale, List.length_drop]
    omega

theorem shows_whole {digits : List Char} {n : Nat} (spells : Spells digits s.digits)
    (scale : s.exponent = n) : (Figures.mk (digits ++ zeros n) ['0'] none).Shows s where
  proper := by
    refine ⟨by simp [spells.filled], fun c among => ?_, ?_⟩
    · simp only [List.mem_append, List.mem_singleton] at among
      obtain (among | zero) | rfl := among
      · exact spells.all c among
      · exact isDigit_zeros zero
      · rfl
    · intro zero
      rw [List.head?_append, Option.or_of_isSome (by simp [spells.filled])] at zero
      exact absurd zero spells.first
  real := .inl (by simp)
  value := by
    refine ⟨n + 1, ?_, ?_⟩
    · have tail : zeros n ++ ['0'] = List.replicate (n + 1) '0' := List.replicate_succ'.symm
      simp only [number_eq, List.append_assoc, tail, Nat.ofDigitChars_append, spells.value,
        Nat.ofDigitChars_replicate_zero]
      exact Nat.mul_comm ..
    · simp [Figures.scale, scale]

theorem toList_pointAfter {n : Nat} {digits : List Char} (more : n < digits.length) :
    (pointAfter n digits).toList = (Figures.mk (digits.take n) (digits.drop n) none).text := by
  have rest : digits.drop n ≠ [] := by simpa using more
  simp [pointAfter, text, fractionText, exponentText, rest]

variable (nonzero : s.digits ≠ 0)
include nonzero

theorem shows_positional : ∃ f : Figures, f.Shows s ∧ (s.positional ".0").toList = f.text := by
  have spells := spells_digitsOf nonzero
  have leading : s.leading = (digitsOf s.digits).length - 1 + s.exponent := rfl
  unfold Scaled.positional
  simp only
  generalize digitsOf s.digits = digits at *
  have filled := List.length_pos_iff.mpr spells.filled
  split
  · next whole =>
      refine ⟨_, shows_whole spells (Int.toNat_of_nonneg whole).symm, ?_⟩
      simp [text, fractionText, exponentText]
  · split
    · refine ⟨_, shows_split spells.all spells.value (absurd · spells.first) (by omega)
        (.inl (by omega)) ?_, toList_pointAfter (by omega)⟩
      simp only [Option.getD_none]
      omega
    · have long : (zeros (-s.leading).toNat ++ digits).length =
          (-s.leading).toNat + digits.length := by
        simp [zeros]
      refine ⟨_, shows_split (fun c among => ?_) ?_ (fun _ => rfl) (by omega) (.inl (by omega)) ?_,
        toList_pointAfter (by omega)⟩
      · exact (List.mem_append.mp among).elim isDigit_zeros (spells.all c)
      · rw [zeros, Nat.ofDigitChars_append, Nat.ofDigitChars_replicate_zero, Nat.mul_zero,
          spells.value]
      · simp only [Option.getD_none]
        omega

theorem shows_scientific : ∃ f : Figures, f.Shows s ∧ s.scientific.toList = f.text := by
  have spells := spells_digitsOf nonzero
  have leading : s.leading = (digitsOf s.digits).length - 1 + s.exponent := rfl
  unfold Scaled.scientific
  simp only
  generalize digitsOf s.digits = digits at *
  have filled := List.length_pos_iff.mpr spells.filled
  refine ⟨⟨digits.take 1, digits.drop 1, some s.leading⟩, shows_split spells.all spells.value
    (absurd · spells.first) (by omega) (.inr (by simp)) ?_, ?_⟩
  · simp only [Option.getD_some]
    omega
  · have mantissa :
        (if digits.length = 1 then String.ofList digits else pointAfter 1 digits).toList =
          digits.take 1 ++ fractionText (digits.drop 1) := by
      split
      · next single => simp [fractionText, List.take_of_length_le, List.drop_eq_nil_of_le, single]
      · next more =>
          rw [toList_pointAfter (by omega)]
          simp [text, exponentText]
    have sign : (if s.leading < 0 then "-" else "+").toList =
        [if s.leading < 0 then '-' else '+'] := by
      split <;> rfl
    simp [mantissa, sign, text, exponentText]

end Layout

section Reading

/-- A point or an exponent makes a number real. -/
theorem Figures.json?_real (negative : Bool) {f : Figures}
    (isReal : f.fraction ≠ [] ∨ f.exponent ≠ none) :
    f.json? negative = (nearestReal? negative f.number f.scale).map .real := by
  have marked : (f.fraction.isEmpty && f.exponent.isNone) = false := by
    simpa [imp_iff_not_or, ← Option.ne_none_iff_isSome] using isReal
  simp only [json?, marked, Bool.false_and, Bool.false_eq_true, if_false]

/-- Figures with a point or an exponent that the reader takes for the number `x`. -/
structure Figures.Means (f : Figures) (negative : Bool) (x : Float) : Prop where
  proper : f.Proper
  real : f.fraction ≠ [] ∨ f.exponent ≠ none
  value : f.json? negative = some (.real x)

theorem means_shortest {d : Decimal.Dyadic} (canonical : d.Canonical)
    (nonzero : d.significand ≠ 0) {tie : Tie} {f : Figures} (shows : f.Shows (d.shortest tie)) :
    f.Means d.negative d.toFloat := by
  obtain ⟨proper, isReal, zeros, number, scale⟩ := shows
  have near := Dyadic.near_shortest nonzero tie zeros
  rw [← number, ← scale] at near
  refine ⟨proper, isReal, ?_⟩
  rw [json?_real _ isReal, nearestReal?_of_near near canonical nonzero, Option.map_some]

theorem means_zero {d : Decimal.Dyadic} (canonical : d.Canonical) (zero : d.significand = 0) :
    (Figures.mk ['0'] ['0'] none).Means d.negative d.toFloat := by
  have isReal : ['0'] ≠ [] ∨ (none : Option Int) ≠ none := .inl (by simp)
  have number : (Figures.mk ['0'] ['0'] none).number = 0 := by decide
  refine ⟨⟨by simp, by simp, fun _ => rfl⟩, isReal, ?_⟩
  rw [json?_real _ isReal, number, nearestReal?_zero canonical zero, Option.map_some]

/-- The text of a finite number is made of figures that mean the number. -/
theorem exists_means {x : Float} (finite : x.isFinite = true) :
    ∃ (f : Figures) (negative : Bool), f.Means negative x ∧
      (realText x).toList = (signText negative).toList ++ f.text := by
  obtain ⟨d, found⟩ := Option.isSome_iff_exists.mp ((Dyadic.isSome_ofFloat? x).trans finite)
  have canonical := Dyadic.canonical_of_ofFloat? found
  have text : realText x = numberFormat.write d := by simp only [realText, found]
  rw [text, ← Dyadic.toFloat_of_ofFloat? found, Format.write, String.toList_append]
  split
  · next zero => exact ⟨_, _, means_zero canonical zero, rfl⟩
  · next nonzero =>
      have digits := Dyadic.digits_shortest_ne_zero canonical nonzero numberFormat.tie
      simp only
      split
      · obtain ⟨f, shows, same⟩ := shows_positional digits
        rw [show numberFormat.wholeMark = ".0" from rfl, same]
        exact ⟨f, _, means_shortest canonical nonzero shows, rfl⟩
      · obtain ⟨f, shows, same⟩ := shows_scientific digits
        rw [same]
        exact ⟨f, _, means_shortest canonical nonzero shows, rfl⟩

theorem readNumber_realText {x : Float} (finite : x.isFinite = true) :
    readNumber (realText x).toList = some (real x, []) := by
  obtain ⟨f, negative, means, text⟩ := exists_means finite
  rw [text, readNumber_text _ means.proper, means.value]
  rfl

theorem readNumber_integerText {n : Int} (low : -2 ^ 63 ≤ n) (high : n < 2 ^ 64) :
    readNumber (integerText n).toList = some (integer n, []) := by
  have proper : (Figures.mk (digitsOf n.natAbs) [] none).Proper := by
    refine ⟨Nat.toDigits_ne_nil, fun c among => ?_, fun zero => ?_⟩
    · exact isDigit_digitsOf (by simpa using among)
    · by_cases nonzero : n.natAbs = 0
      · simp [nonzero, digitsOf]
      · exact absurd zero (head?_digitsOf nonzero)
  have number : (Figures.mk (digitsOf n.natAbs) [] none).number = n.natAbs := by
    simp [Figures.number_eq, digitsOf, Nat.ofDigitChars_ten_toDigits]
  have text : (integerText n).toList =
      (signText (n < 0)).toList ++ (Figures.mk (digitsOf n.natAbs) [] none).text := by
    simp [integerText, Figures.text, fractionText, exponentText]
  have signed : (if decide (n < 0) then -(n.natAbs : Int) else n.natAbs) = n := by
    simp only [decide_eq_true_eq]
    split <;> omega
  have least : Int64.minValue.toInt = -2 ^ 63 := by decide
  have size : UInt64.size = 2 ^ 64 := rfl
  rw [text, readNumber_text _ proper]
  simp only [json?, number, signed]
  rw [if_pos]
  · rfl
  · simp [least, size]
    omega

end Reading

end Logo.Json
