import Mathlib.Algebra.Ring.Commute
import Mathlib.Algebra.Ring.Int.Defs
import Mathlib.Logic.Function.Iterate
import Logo.Proofs.Spelling

/-!
Words that stand for values. A colon and a name refer to a parameter, decimal notation that
fits 64 bits is a constant, and no other word is a value. Signs put in front of a constant
later are applied without overflow, since the least integer gives way to its successor.
-/
namespace Logo

namespace Decimal

theorem isDigit_eq (c : Char) : isDigit c = c.isDigit := rfl

theorem continueNatural_eq (n : Nat) (cs : List Char) :
    continueNatural n cs = Nat.ofDigitChars 10 cs n := by
  rw [Nat.ofDigitChars_eq_foldl]
  rfl

theorem natural?_eq_some_iff {cs : List Char} {n : Nat} :
    natural? cs = some n ↔
      cs ≠ [] ∧ (∀ c ∈ cs, c.isDigit = true) ∧ Nat.ofDigitChars 10 cs 0 = n := by
  simp only [natural?, continueNatural_eq, Option.ite_none_right_eq_some, Option.some.injEq,
    Bool.and_eq_true, Bool.not_eq_true', List.isEmpty_eq_false_iff, List.all_eq_true, isDigit_eq,
    and_assoc]

/-- The integers that texts denote: digits, at least one, behind an optional sign. -/
inductive Numeral : List Char → Int → Prop
  | plain {digits : List Char} (some : digits ≠ []) (all : ∀ c ∈ digits, c.isDigit = true) :
      Numeral digits (Nat.ofDigitChars 10 digits 0)
  | plus {digits : List Char} (some : digits ≠ []) (all : ∀ c ∈ digits, c.isDigit = true) :
      Numeral ('+' :: digits) (Nat.ofDigitChars 10 digits 0)
  | minus {digits : List Char} (some : digits ≠ []) (all : ∀ c ∈ digits, c.isDigit = true) :
      Numeral ('-' :: digits) (-(Nat.ofDigitChars 10 digits 0 : Nat))

theorem numeral_toString (n : Int) : Numeral (toString n).toList n := by
  have digits (m : Nat) : ∀ c ∈ Nat.toDigits 10 m, c.isDigit = true :=
    fun _ among => Nat.isDigit_of_mem_toDigits (by decide) (by decide) among
  cases n with
  | ofNat m =>
      have numeral := Numeral.plain Nat.toDigits_ne_nil (digits m)
      rw [Nat.ofDigitChars_ten_toDigits] at numeral
      have text : (toString (Int.ofNat m)).toList = Nat.toDigits 10 m := by
        simp [toString, Int.repr]
      rwa [text]
  | negSucc m =>
      have numeral := Numeral.minus Nat.toDigits_ne_nil (digits (m + 1))
      rw [Nat.ofDigitChars_ten_toDigits] at numeral
      have text : (toString (Int.negSucc m)).toList = '-' :: Nat.toDigits 10 (m + 1) := by
        simp [toString, Int.repr]
      rwa [text]

theorem Numeral.not_colon {cs : List Char} {n : Int} (h : Numeral cs n) (name : List Char) :
    cs ≠ ':' :: name := by
  rintro rfl
  cases h with
  | plain _ all => exact absurd (all ':' List.mem_cons_self) (by decide)

end Decimal

namespace Value

open Decimal

theorem integer?_eq_some_iff {cs : List Char} {n : Int64} :
    integer? cs = some n ↔ Numeral cs n.toInt := by
  constructor
  · intro h
    unfold integer? at h
    simp only [digits?_eq] at h
    split at h <;> obtain ⟨m, read, fits⟩ := Option.bind_eq_some_iff.mp h <;>
      obtain ⟨some, all, rfl⟩ := natural?_eq_some_iff.mp read <;>
      rw [← int64?_eq_some_iff.mp fits]
    · exact .minus some all
    · exact .plus some all
    · exact .plain some all
  · intro h
    generalize same : n.toInt = m at h
    have fits := int64?_eq_some_iff.mpr same.symm
    cases h with
    | plain some all =>
        have read := natural?_eq_some_iff.mpr ⟨some, all, rfl⟩
        unfold integer?
        split
        · exact absurd (all '-' List.mem_cons_self) (by decide)
        · exact absurd (all '+' List.mem_cons_self) (by decide)
        · rw [digits?_eq, read]
          exact fits
    | plus some all | minus some all =>
        have read := natural?_eq_some_iff.mpr ⟨some, all, rfl⟩
        rw [integer?, digits?_eq, read]
        exact fits

/-- A word either refers to a parameter or has to be an integer. -/
theorem resolve_cases (word : String) :
    (∃ spelled, spelled ≠ "" ∧ word = ":" ++ spelled ∧
      resolve word = .ok (.parameter (Text.lowercase spelled))) ∨
    (∀ spelled, word = ":" ++ spelled → spelled = "") ∧
      resolve word = match integer? word.toList with
        | some n => .ok (.constant n)
        | none => .error .notAnInteger := by
  by_cases colon : ∃ spelled, spelled ≠ "" ∧ word = ":" ++ spelled
  · obtain ⟨spelled, more, rfl⟩ := colon
    have text : (":" ++ spelled).toList = ':' :: spelled.toList := String.toList_append
    have found := resolve_of_name text (mt String.toList_eq_nil_iff.mp more)
    rw [String.ofList_toList] at found
    exact .inl ⟨spelled, more, rfl, found⟩
  · have other (spelled : String) (text : word = ":" ++ spelled) : spelled = "" :=
      Classical.byContradiction fun more => colon ⟨spelled, more, text⟩
    refine .inr ⟨other, resolve_of_other fun name text => ?_⟩
    have spelled : word = ":" ++ String.ofList name := by
      rw [← String.toList_inj, text]
      simp
    simpa using congrArg String.toList (other _ spelled)

theorem resolve_eq_parameter_iff {word name : String} :
    resolve word = .ok (.parameter name) ↔
      ∃ spelled, spelled ≠ "" ∧ word = ":" ++ spelled ∧ name = Text.lowercase spelled := by
  obtain ⟨spelled, more, text, found⟩ | ⟨other, found⟩ := resolve_cases word
  · constructor
    · intro h
      rw [found] at h
      cases h
      exact ⟨spelled, more, text, rfl⟩
    · rintro ⟨spelled', _, text', rfl⟩
      rw [found, (String.append_right_inj ":").mp (text.symm.trans text')]
  · constructor
    · intro h
      rw [found] at h
      split at h <;> cases h
    · rintro ⟨spelled, more, text, _⟩
      exact absurd (other spelled text) more

theorem resolve_eq_constant_iff {word : String} {n : Int64} :
    resolve word = .ok (.constant n) ↔ Numeral word.toList n.toInt := by
  rw [← integer?_eq_some_iff]
  obtain ⟨spelled, _, rfl, found⟩ | ⟨_, found⟩ := resolve_cases word
  · constructor
    · intro h
      rw [found] at h
      cases h
    · intro h
      have text : (":" ++ spelled).toList = ':' :: spelled.toList := String.toList_append
      exact absurd text ((integer?_eq_some_iff.mp h).not_colon _)
  · rw [found]
    cases integer? word.toList with
    | none => simp
    | some m => simp

theorem resolve_eq_error_iff {word : String} : resolve word = .error .notAnInteger ↔
    (∀ spelled, word = ":" ++ spelled → spelled = "") ∧
      ∀ n, Numeral word.toList n → n < -2 ^ 63 ∨ 2 ^ 63 ≤ n := by
  constructor
  · intro h
    refine ⟨fun spelled text => ?_, fun m numeral => ?_⟩
    · refine Classical.byContradiction fun more => ?_
      rw [resolve_eq_parameter_iff.mpr ⟨spelled, more, text, rfl⟩] at h
      cases h
    · refine Classical.byContradiction fun inside => ?_
      have fits : (Int64.ofInt m).toInt = m := Int64.toInt_ofInt_of_le (by omega) (by omega)
      rw [← fits] at numeral
      rw [resolve_eq_constant_iff.mpr numeral] at h
      cases h
  · rintro ⟨other, outside⟩
    cases found : resolve word with
    | error fault => rw [fault_of_resolve found]
    | ok value =>
        obtain ⟨spelled, more, text, _⟩ | ⟨_, read⟩ := resolve_cases word
        · exact absurd (other spelled text) more
        · rw [found] at read
          split at read
          · next n held =>
              have low := n.le_toInt
              have high := n.toInt_lt
              have := outside _ (integer?_eq_some_iff.mp held)
              omega
          · cases read

theorem toInt_negate (n : Int64) : (negate n).toInt = -max n.toInt (-(2 ^ 63 - 1)) := by
  have low := n.le_toInt
  unfold negate
  split
  · next least =>
      rw [least]
      decide
  · next other =>
      have above : n.toInt ≠ Int64.minValue.toInt := mt Int64.toInt_inj.mp other
      have least : Int64.minValue.toInt = -2 ^ 63 := by decide
      have high := n.toInt_lt
      rw [Int64.toInt_neg, Int.bmod_eq_of_le (by omega) (by omega), Int.max_eq_left (by omega)]

/-- Of the least integer the greatest one is left after one sign, and its negative after two. -/
theorem get_negated {value : Value} {bindings : Bindings} {n : Int64}
    (h : value.get bindings = .ok n) (k : Nat) :
    ∃ m, (negated^[k] value).get bindings = .ok m ∧
      m.toInt = if k = 0 then n.toInt else (-1) ^ k * max n.toInt (-(2 ^ 63 - 1)) := by
  induction k with
  | zero => exact ⟨n, h, rfl⟩
  | succ k ih =>
      obtain ⟨m, evaluated, held⟩ := ih
      refine ⟨negate m, ?_, ?_⟩
      · rw [Function.iterate_succ_apply', get, evaluated]
        rfl
      · have high := n.toInt_lt
        rw [if_neg (Nat.succ_ne_zero k), toInt_negate, held, pow_succ (-1) k]
        split
        · next none => simp [none]
        · obtain sign | sign := neg_one_pow_eq_or Int k <;> rw [sign] <;> omega

/-- A word refers to a parameter if and only if it is a colon and a name, and is a constant if
and only if it is decimal notation for an integer of 64 bits; all other words are refused. The
decimal notation of such an integer stands for it, and any number of signs can be put in
front of it later, which change its sign one after the other. -/
theorem resolve_value_words :
    (∀ word : String,
      (∀ name, resolve word = .ok (.parameter name) ↔
        ∃ spelled, spelled ≠ "" ∧ word = ":" ++ spelled ∧ name = Text.lowercase spelled) ∧
      (∀ n, resolve word = .ok (.constant n) ↔ Numeral word.toList n.toInt) ∧
      (resolve word = .error .notAnInteger ↔
        (∀ spelled, word = ":" ++ spelled → spelled = "") ∧
          ∀ n, Numeral word.toList n → n < -2 ^ 63 ∨ 2 ^ 63 ≤ n)) ∧
    ∀ n : Int64, resolve (toString n.toInt) = .ok (.constant n) ∧
      ∀ (bindings : Bindings) (k : Nat),
        ∃ m, (negated^[k] (.constant n)).get bindings = .ok m ∧
          m.toInt = if k = 0 then n.toInt else (-1) ^ k * max n.toInt (-(2 ^ 63 - 1)) := by
  refine ⟨fun word => ⟨fun name => resolve_eq_parameter_iff, fun n => resolve_eq_constant_iff,
    resolve_eq_error_iff⟩, fun n => ⟨?_, fun bindings k => get_negated rfl k⟩⟩
  exact resolve_eq_constant_iff.mpr (numeral_toString n.toInt)

example : ∀ word ∈ ["-9223372036854775808", "+0009223372036854775807", "-0"],
    (resolve word).isOk := by
  decide +kernel

example : ∀ word ∈ ["-9223372036854775809", "+9223372036854775808", "-", ":", "1 ", "\u0661", ""],
    resolve word = .error .notAnInteger := by
  decide +kernel

end Value

end Logo
