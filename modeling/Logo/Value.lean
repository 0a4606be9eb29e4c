import Logo.Decimal.Natural
import Logo.Dictionary
import Logo.Fault
import Logo.Text.Lowercase

/-!
Values: integers of 64 bits, written out or taken from a parameter when they are needed.
-/
namespace Logo

abbrev Bindings := Dictionary Int64

inductive Value where
  | constant (n : Int64)
  | parameter (name : String)
  | negated (value : Value)
deriving DecidableEq, Repr

/-- Negation, where the least integer goes to the greatest one. -/
def negate (n : Int64) : Int64 :=
  if n = Int64.minValue then Int64.maxValue else -n

namespace Value

def get (bindings : Bindings) : Value → Except Fault Int64
  | constant n => .ok n
  | parameter name =>
    match bindings.get? name with
    | some n => .ok n
    | none => .error (.unknownParameter name)
  | negated value => (value.get bindings).map negate

def int64? (n : Int) : Option Int64 :=
  if Int64.minValue.toInt ≤ n ∧ n ≤ Int64.maxValue.toInt then some (Int64.ofInt n) else none

/-- The number with one more digit. A negative one moves down, since the least integer has no
positive counterpart; no step may leave the 64 bits. -/
def pushDigit? (negative : Bool) (n : Int64) (c : Char) : Option Int64 :=
  if Decimal.isDigit c then do
    let tens ← int64? (n.toInt * 10)
    int64? (if negative then tens.toInt - Decimal.digitValue c
      else tens.toInt + Decimal.digitValue c)
  else none

/-- Leading zeros are allowed; at least one digit is required. -/
def digits? (negative : Bool) (cs : List Char) : Option Int64 :=
  if cs.isEmpty then none else cs.foldlM (pushDigit? negative) 0

/-- An integer in decimal notation with an optional sign. -/
def integer? : List Char → Option Int64
  | '-' :: cs => digits? true cs
  | '+' :: cs => digits? false cs
  | cs => digits? false cs

/-- The value that a word stands for: a colon and a name, or an integer. -/
def resolve (word : String) : Except Fault Value :=
  match word.toList with
  | ':' :: c :: name => .ok (parameter (Text.lowercase (String.ofList (c :: name))))
  | cs =>
    match integer? cs with
    | some n => .ok (constant n)
    | none => .error .notAnInteger

section Accumulation

theorem int64?_eq_some_iff {m : Int} {n : Int64} : int64? m = some n ↔ m = n.toInt := by
  have least : Int64.minValue.toInt = -2 ^ 63 := by decide
  have greatest : Int64.maxValue.toInt = 2 ^ 63 - 1 := by decide
  simp only [int64?, Option.ite_none_right_eq_some, Option.some.injEq, least, greatest]
  constructor
  · rintro ⟨⟨low, high⟩, rfl⟩
    exact (Int64.toInt_ofInt_of_le low (by omega)).symm
  · rintro rfl
    have low := n.le_toInt
    have high := n.toInt_lt
    exact ⟨⟨low, by omega⟩, Int64.ofInt_toInt n⟩

theorem int64?_eq_none_iff {m : Int} :
    int64? m = none ↔ m < Int64.minValue.toInt ∨ Int64.maxValue.toInt < m := by
  rw [int64?]
  by_cases inside : Int64.minValue.toInt ≤ m ∧ m ≤ Int64.maxValue.toInt
  · rw [if_pos inside]
    exact iff_of_false nofun (by omega)
  · rw [if_neg inside]
    exact iff_of_true rfl (by omega)

def signed (negative : Bool) (m : Nat) : Int := if negative then -m else m

theorem signed_true (m : Nat) : signed true m = -m := rfl

theorem signed_false (m : Nat) : signed false m = m := rfl

variable {negative : Bool}

/-- Once a number is too large, more digits do not help. -/
theorem int64?_signed_eq_none {m k : Nat} (h : int64? (signed negative m) = none) (le : m ≤ k) :
    int64? (signed negative k) = none := by
  have least : Int64.minValue.toInt ≤ 0 := by decide
  have greatest : 0 ≤ Int64.maxValue.toInt := by decide
  rw [int64?_eq_none_iff] at h ⊢
  cases negative <;> simp only [signed_true, signed_false] at h ⊢ <;> omega

theorem pushDigit?_eq {n : Int64} {m : Nat} (h : n.toInt = signed negative m) {c : Char}
    (digit : Decimal.isDigit c = true) :
    pushDigit? negative n c = int64? (signed negative (10 * m + Decimal.digitValue c)) := by
  have shifted : n.toInt * 10 = signed negative (10 * m) := by
    rw [h]
    cases negative <;> simp only [signed_true, signed_false] <;> omega
  rw [pushDigit?, if_pos digit, shifted]
  cases found : int64? (signed negative (10 * m)) with
  | none => exact (int64?_signed_eq_none found (Nat.le_add_right _ _)).symm
  | some tens =>
      refine congrArg int64? ?_
      rw [← int64?_eq_some_iff.mp found]
      cases negative with
      | true =>
          simp only [signed_true, if_true]
          omega
      | false =>
          simp only [signed_false, Bool.false_eq_true, if_false]
          omega

theorem foldlM_pushDigit? {n : Int64} {m : Nat} (h : n.toInt = signed negative m)
    (cs : List Char) :
    cs.foldlM (pushDigit? negative) n =
      if cs.all Decimal.isDigit then int64? (signed negative (Decimal.continueNatural m cs))
      else none := by
  induction cs generalizing n m with
  | nil => exact (int64?_eq_some_iff.mpr h.symm).symm
  | cons c cs ih =>
      rw [List.foldlM_cons, List.all_cons]
      by_cases digit : Decimal.isDigit c = true
      · rw [pushDigit?_eq h digit, digit, Bool.true_and]
        cases next : int64? (signed negative (10 * m + Decimal.digitValue c)) with
        | none =>
            have beyond :
                int64? (signed negative (Decimal.continueNatural m (c :: cs))) = none :=
              int64?_signed_eq_none next (Decimal.le_continueNatural _ cs)
            rw [beyond, ite_self]
            rfl
        | some next' => exact ih (int64?_eq_some_iff.mp next).symm
      · rw [pushDigit?, if_neg digit]
        simp [digit]

/-- Checking every step comes to the same as checking the number as a whole. -/
theorem digits?_eq (negative : Bool) (cs : List Char) :
    digits? negative cs = (Decimal.natural? cs).bind fun m => int64? (signed negative m) := by
  have zero : (0 : Int64).toInt = signed negative 0 := by cases negative <;> decide
  rw [digits?, foldlM_pushDigit? zero, Decimal.natural?]
  cases cs with
  | nil => rfl
  | cons c cs =>
      simp only [List.isEmpty_cons, Bool.false_eq_true, if_false, Bool.not_false, Bool.true_and]
      split <;> rfl

end Accumulation

end Value

end Logo
