import Mathlib.Tactic.Ring
import Logo.Json.Parser

/-!
Decimals that read back. A decimal is read as the binary number to which it rounds, and it
rounds to a given one if it lies between the points halfway to the neighbours of that number.
The shortest decimal is taken from there, so it reads back.
-/
namespace Logo

namespace Decimal

theorem roundDiv_cases (tie : Tie) (num den : Nat) :
    roundDiv tie num den = num / den ∨ roundDiv tie num den = num / den + 1 := by
  unfold roundDiv
  simp only
  split
  · exact .inl rfl
  · split
    · exact .inr rfl
    · split
      · exact .inr rfl
      · exact .inl rfl

/-- The whole number that is at most half a unit away, and even if it is exactly that. -/
theorem roundDiv_toEven {num den m : Nat} (low : 2 * m * den ≤ 2 * num + den)
    (high : 2 * num ≤ 2 * m * den + den)
    (even : 2 * m * den = 2 * num + den ∨ 2 * num = 2 * m * den + den → m % 2 = 0)
    (pos : 0 < den) : roundDiv .toEven num den = m := by
  have whole : den * (num / den) + num % den = num := Nat.div_add_mod num den
  have rest := Nat.mod_lt num pos
  have raises (below : Nat) : Tie.toEven.raises below = true ↔ below % 2 = 1 := by simp [Tie.raises]
  unfold roundDiv
  simp only [raises]
  generalize num / den = q at *
  generalize num % den = r at *
  have above : m ≤ q + 1 := by
    by_contra far
    have := Nat.mul_le_mul_right den (show q + 2 ≤ m by omega)
    grind
  have below : q ≤ m := by
    by_contra far
    have := Nat.mul_le_mul_right den (show m + 1 ≤ q by omega)
    grind
  obtain rfl | rfl : m = q ∨ m = q + 1 := by omega
  · have half : 2 * r ≤ den := by grind
    by_cases less : 2 * r < den
    · rw [if_pos less]
    · have tied : m % 2 = 0 := even (.inr (by grind))
      rw [if_neg less, if_neg (by omega), if_neg (by omega)]
  · have half : den ≤ 2 * r := by grind
    by_cases more : den < 2 * r
    · rw [if_neg (by omega), if_pos more]
    · have tied : (q + 1) % 2 = 0 := even (.inl (by grind))
      rw [if_neg (by omega), if_neg more, if_pos (by omega)]

namespace Interval

theorem contains_pointOn {tie : Tie} {unit digits : Nat} {interval : Interval}
    (h : interval.pointOn tie unit = some digits) : interval.contains (digits * unit) = true := by
  unfold pointOn at h
  simp only at h
  split at h
  · next below above =>
      cases h
      rcases roundDiv_cases tie interval.value unit with same | same <;> rw [same] <;> assumption
  · next below _ =>
      cases h
      exact below
  · next _ above =>
      cases h
      exact above
  · cases h

/-- Whatever grid the shortest decimal is found on, it lies in the interval. -/
theorem contains_shortest (tie : Tie) {interval : Interval}
    (self : interval.contains interval.value = true) :
    ∃ k : Nat, (interval.shortest tie).exponent = k ∧
      interval.contains ((interval.shortest tie).digits * 10 ^ k) = true := by
  unfold shortest
  simp only
  split
  · next found => exact ⟨_, rfl, contains_pointOn found⟩
  · exact ⟨0, rfl, by simpa using self⟩

end Interval

namespace Dyadic

theorem shiftLeft_pos {den : Nat} (pos : 0 < den) (s : Nat) : 0 < den <<< s := by
  rw [Nat.shiftLeft_eq]
  exact Nat.mul_pos pos (Nat.two_pow_pos s)

theorem shiftLeft_mono (n : Nat) {j k : Nat} (h : j ≤ k) : n <<< j ≤ n <<< k := by
  rw [Nat.shiftLeft_eq, Nat.shiftLeft_eq]
  exact Nat.mul_le_mul_left _ (Nat.pow_le_pow_right (by decide) h)

theorem shiftLeft_le_mul_ten_pow (n k : Nat) : n <<< (3 * k) ≤ n * 10 ^ k := by
  rw [Nat.shiftLeft_eq, pow_mul]
  exact Nat.mul_le_mul_left _ (Nat.pow_le_pow_left (by decide) k)

theorem mul_shiftLeft (m n k : Nat) : m * n <<< k = (m * n) <<< k := by
  rw [Nat.shiftLeft_eq, Nat.shiftLeft_eq, mul_assoc]

/-- The number is what its code stands for, and it is in range. -/
structure Canonical (d : Dyadic) : Prop where
  inRange : d.code < finiteCodes
  ofCode_code : ofCode d.negative d.code = d

theorem canonical_ofCode (negative : Bool) {n : Nat} (h : n < finiteCodes) :
    (ofCode negative n).Canonical where
  inRange := by rwa [code_ofCode]
  ofCode_code := by
    rw [code_ofCode]
    rfl

/-- Significands are below `2 ^ 53`, and they are normal unless numbers are spaced as densely
as they get. -/
theorem Canonical.significand {d : Dyadic} (h : d.Canonical) :
    d.significand < 2 ^ 53 ∧ (d.scale ≠ 0 → 2 ^ 52 ≤ d.significand) ∧ d.scale ≤ 2045 := by
  have fits := h.inRange
  rw [← h.ofCode_code]
  simp only [ofCode, finiteCodes, Nat.shiftRight_eq_div_pow, Nat.shiftLeft_eq] at fits ⊢
  omega

/-- How far below it the numbers start that are read as it, in quarters of its last binary
place. -/
def reach (d : Dyadic) : Nat := if d.significand = 1 <<< 52 ∧ d.scale ≠ 0 then 1 else 2

theorem reach_cases (d : Dyadic) :
    d.reach = 2 ∨ d.reach = 1 ∧ d.significand = 2 ^ 52 ∧ d.scale ≠ 0 := by
  unfold reach
  split
  · next edge => exact .inr ⟨rfl, edge⟩
  · exact .inl rfl

/-- The quotient of `num` and `den` lies between the points halfway to the neighbours, on one
of the two only if the significand is even. -/
structure Near (d : Dyadic) (num den : Nat) : Prop where
  low : (4 * d.significand - d.reach) * den <<< d.scale ≤ 4 * num <<< 1074
  high : 4 * num <<< 1074 ≤ (4 * d.significand + 2) * den <<< d.scale
  even : (4 * d.significand - d.reach) * den <<< d.scale = 4 * num <<< 1074 ∨
    4 * num <<< 1074 = (4 * d.significand + 2) * den <<< d.scale → d.significand % 2 = 0

theorem scale_le_of_lt {units den s : Nat} (pos : 0 < den) (h : units < 2 ^ 53 * den <<< s) :
    (units / den).log2 - 52 ≤ s := by
  have small : units / den < 2 ^ (53 + s) := by
    rwa [Nat.div_lt_iff_lt_mul pos, pow_add, mul_assoc, mul_comm _ den, ← Nat.shiftLeft_eq]
  by_cases zero : units / den = 0
  · simp [zero]
  · have := (Nat.log2_lt zero).mpr small
    omega

theorem le_scale_of_le {units den s : Nat} (pos : 0 < den) (h : 2 ^ 52 * den <<< s ≤ units) :
    s ≤ (units / den).log2 - 52 := by
  have large : 2 ^ (52 + s) ≤ units / den := by
    rwa [Nat.le_div_iff_mul_le pos, pow_add, mul_assoc, mul_comm _ den, ← Nat.shiftLeft_eq]
  have more : units / den ≠ 0 := (Nat.lt_of_lt_of_le (Nat.two_pow_pos _) large).ne'
  have := (Nat.le_log2 more).mpr large
  omega

namespace Near

variable {d : Dyadic} {num den : Nat}

/-- The scale at which a quotient is rounded is that of the number near it, except that the
quotients just below a power of two are rounded at the scale before. -/
theorem scale_cases (near : d.Near num den) (canonical : d.Canonical) (pos : 0 < den) :
    (num <<< 1074 / den).log2 - 52 = d.scale ∨
      d.significand = 2 ^ 52 ∧ (num <<< 1074 / den).log2 - 52 + 1 = d.scale := by
  have ⟨small, normal, _⟩ := canonical.significand
  have ⟨low, high, _⟩ := near
  have unit := shiftLeft_pos pos d.scale
  have below : (num <<< 1074 / den).log2 - 52 ≤ d.scale := by
    apply scale_le_of_lt pos
    have := Nat.mul_le_mul_right (den <<< d.scale)
      (show 4 * d.significand + 2 ≤ 4 * 2 ^ 53 - 2 by omega)
    omega
  by_cases dense : d.scale = 0
  · omega
  by_cases edge : d.significand = 2 ^ 52
  · have half : den <<< d.scale = 2 * den <<< (d.scale - 1) := by
      rw [← Nat.shiftLeft_succ, Nat.sub_add_cancel (by omega)]
    have above : d.scale - 1 ≤ (num <<< 1074 / den).log2 - 52 := by
      apply le_scale_of_le pos
      have := Nat.mul_le_mul_right (den <<< d.scale)
        (show 2 * 2 ^ 52 ≤ 4 * d.significand - d.reach by have := d.reach_cases; omega)
      omega
    omega
  · have above : d.scale ≤ (num <<< 1074 / den).log2 - 52 := by
      apply le_scale_of_le pos
      have := Nat.mul_le_mul_right (den <<< d.scale)
        (show 4 * 2 ^ 52 ≤ 4 * d.significand - d.reach by
          have := d.reach_cases
          have := normal dense
          omega)
      omega
    omega

/-- A quotient that is near a number is read as that number. -/
theorem nearest? (near : d.Near num den) (canonical : d.Canonical) (pos : 0 < den) :
    Dyadic.nearest? d.negative num den = some d := by
  suffices same : ∀ s, s = (num <<< 1074 / den).log2 - 52 →
      s <<< 52 + roundDiv .toEven (num <<< 1074) (den <<< s) = d.code by
    simp only [Dyadic.nearest?, same _ rfl, canonical.inRange, canonical.ofCode_code, if_true]
  intro s scale
  have ⟨low, high, even⟩ := near
  have unit := shiftLeft_pos pos s
  rw [Nat.sub_mul] at low even
  -- Just below a power of two, the significand overflows to the next scale, and the code is
  -- that of the power all the same.
  obtain same | ⟨edge, before⟩ := near.scale_cases canonical pos
  · obtain rfl : s = d.scale := by omega
    suffices rounded : roundDiv .toEven (num <<< 1074) (den <<< d.scale) = d.significand by
      rw [rounded, code]
    have within : d.reach * den <<< d.scale ≤ 2 * den <<< d.scale :=
      Nat.mul_le_mul_right _ (by have := d.reach_cases; omega)
    refine roundDiv_toEven (by grind) (by grind) (fun tied => ?_) unit
    obtain two | ⟨_, edge, _⟩ := d.reach_cases
    · rw [two] at even
      exact even (by grind)
    · omega
  · have less : num <<< 1074 < 2 ^ 52 * den <<< d.scale := by
      by_contra far
      have := le_scale_of_le pos (Nat.le_of_not_lt far)
      omega
    have twice : den <<< d.scale = 2 * den <<< s := by
      rw [← before, ← scale, Nat.shiftLeft_succ]
    have same : roundDiv .toEven (num <<< 1074) (den <<< s) = 2 ^ 53 := by
      refine roundDiv_toEven ?_ ?_ (fun _ => by omega) unit
      · have reach : d.reach = 1 := if_pos ⟨edge, by omega⟩
        rw [edge, reach, twice] at low
        omega
      · rw [twice] at less
        omega
    rw [same, code, edge, ← before, ← scale, Nat.shiftLeft_eq, Nat.shiftLeft_eq]
    omega

/-- No quotient in range is large. -/
theorem le_mul_ten_pow (near : d.Near num den) (canonical : d.Canonical) :
    num ≤ den * 10 ^ 343 := by
  have ⟨small, _, scale⟩ := canonical.significand
  have shift : num <<< 1074 ≤ (den <<< (3 * 343)) <<< 1074 :=
    calc num <<< 1074 ≤ (4 * d.significand + 2) * den <<< d.scale :=
          Nat.le_trans (Nat.le_mul_of_pos_left _ (by decide)) near.high
      _ ≤ 2 ^ 55 * den <<< d.scale := Nat.mul_le_mul_right _ (by omega)
      _ = den <<< (d.scale + 55) := by rw [Nat.shiftLeft_add, Nat.shiftLeft_eq _ 55, mul_comm]
      _ ≤ den <<< (3 * 343 + 1074) := shiftLeft_mono den (by omega)
      _ = (den <<< (3 * 343)) <<< 1074 := Nat.shiftLeft_add ..
  rw [Nat.shiftLeft_eq _ 1074, Nat.shiftLeft_eq _ 1074,
    Nat.mul_le_mul_right_iff (Nat.two_pow_pos 1074)] at shift
  exact Nat.le_trans shift (shiftLeft_le_mul_ten_pow den 343)

/-- No quotient that is not read as zero is small. -/
theorem le_mul_ten_pow_of_ne_zero (near : d.Near num den) (more : d.significand ≠ 0) :
    den ≤ num * 10 ^ 359 :=
  calc den ≤ den <<< d.scale := shiftLeft_mono den (Nat.zero_le _)
    _ ≤ (4 * d.significand - d.reach) * den <<< d.scale :=
        Nat.le_mul_of_pos_left _ (by have := d.reach_cases; omega)
    _ ≤ 4 * num <<< 1074 := near.low
    _ = num <<< (1074 + 2) := by rw [Nat.shiftLeft_add num 1074 2, Nat.shiftLeft_eq _ 2, mul_comm]
    _ ≤ num <<< (3 * 359) := shiftLeft_mono num (by decide)
    _ ≤ num * 10 ^ 359 := shiftLeft_le_mul_ten_pow num 359

/-- How many places a decimal has that is near a number. -/
theorem size {n : Nat} {e : Int}
    (near : d.Near (n * 10 ^ e.toNat) (10 ^ (-e).toNat)) (canonical : d.Canonical)
    (more : d.significand ≠ 0) :
    n ≠ 0 ∧ -400 ≤ (Nat.toDigits 10 n).length + e ∧ (Nat.toDigits 10 n).length + e ≤ 400 := by
  have high := near.le_mul_ten_pow canonical
  have low := near.le_mul_ten_pow_of_ne_zero more
  have some : 0 < n := by
    have pos : 0 < 10 ^ (-e).toNat := Nat.pow_pos (by decide)
    by_contra none
    rw [show n = 0 by omega, zero_mul, zero_mul] at low
    omega
  refine ⟨by omega, ?_, ?_⟩
  · by_contra short
    have less := (Nat.length_toDigits_le_iff (n := n) (show 1 < 10 by decide)
      Nat.length_toDigits_pos).mp le_rfl
    generalize (Nat.toDigits 10 n).length = length at *
    have : 10 ^ (-e).toNat < 10 ^ (-e).toNat :=
      calc 10 ^ (-e).toNat ≤ n * 10 ^ (e.toNat + 359) := by rwa [pow_add, ← mul_assoc]
        _ < 10 ^ length * 10 ^ (e.toNat + 359) :=
            Nat.mul_lt_mul_of_pos_right less (Nat.pow_pos (by decide))
        _ = 10 ^ (length + (e.toNat + 359)) := (pow_add ..).symm
        _ ≤ 10 ^ (-e).toNat := Nat.pow_le_pow_right (by decide) (by omega)
    omega
  · have bounded : e.toNat ≤ (-e).toNat + 343 := by
      rw [← Nat.pow_le_pow_iff_right (show 1 < 10 by decide), pow_add]
      exact Nat.le_trans (Nat.le_mul_of_pos_left _ some) high
    have few : (Nat.toDigits 10 n).length ≤ (-e).toNat + 344 - e.toNat := by
      rw [Nat.length_toDigits_le_iff (by decide) (by omega)]
      have := calc n * 10 ^ e.toNat ≤ 10 ^ ((-e).toNat + 343) := by rwa [pow_add]
        _ < 10 ^ ((-e).toNat + 344) := Nat.pow_lt_pow_right (by decide) (by omega)
        _ = 10 ^ ((-e).toNat + 344 - e.toNat) * 10 ^ e.toNat := by
            rw [← pow_add, Nat.sub_add_cancel (by omega)]
      exact Nat.lt_of_mul_lt_mul_right this
    omega

end Near

/-- A quarter of the last binary place, which is the unit of the interval. -/
def quarter (d : Dyadic) : Nat := 5 ^ d.places <<< (d.scale - 1076)

theorem quarter_pos (d : Dyadic) : 0 < d.quarter := shiftLeft_pos (Nat.pow_pos (by decide)) _

theorem quarter_shiftLeft (d : Dyadic) : d.quarter <<< 1076 = 10 ^ d.places <<< d.scale := by
  have total : d.scale - 1076 + 1076 = d.places + d.scale := by
    simp only [places]
    omega
  calc d.quarter <<< 1076 = 5 ^ d.places <<< (d.scale - 1076 + 1076) :=
        (Nat.shiftLeft_add ..).symm
    _ = (5 ^ d.places <<< d.places) <<< d.scale := by rw [total, Nat.shiftLeft_add]
    _ = 10 ^ d.places <<< d.scale := by
        rw [Nat.shiftLeft_eq _ d.places, ← mul_pow, show 5 * 2 = 10 from rfl]

theorem interval_eq (d : Dyadic) :
    d.interval = ⟨(4 * d.significand - d.reach) * d.quarter, 4 * d.significand * d.quarter,
      (4 * d.significand + 2) * d.quarter, d.significand % 2 == 0⟩ := rfl

/-- The interval holds the quotients that are near the number. -/
theorem near_of_contains {d : Dyadic} {p num den : Nat} (inside : d.interval.contains p = true)
    (same : num * 10 ^ d.places = p * den) (pos : 0 < den) : d.Near num den := by
  have factor := shiftLeft_pos pos 1076
  have tens : 0 < 10 ^ d.places := Nat.pow_pos (by decide)
  have point : p * den <<< 1076 = 4 * num <<< 1074 * 10 ^ d.places := by
    have quarters : num <<< 1076 = 4 * num <<< 1074 := by
      rw [Nat.shiftLeft_succ num 1075, Nat.shiftLeft_succ num 1074]
      omega
    rw [← quarters, mul_comm _ (10 ^ d.places), mul_shiftLeft, mul_shiftLeft, ← same, mul_comm]
  have bound (a : Nat) :
      a * d.quarter * den <<< 1076 = a * den <<< d.scale * 10 ^ d.places := by
    rw [mul_shiftLeft, mul_right_comm, ← mul_shiftLeft, quarter_shiftLeft, mul_shiftLeft,
      mul_shiftLeft, mul_comm ((a * den) <<< _), mul_shiftLeft, mul_comm (10 ^ d.places)]
  have below (a : Nat) : a * d.quarter ≤ p ↔ a * den <<< d.scale ≤ 4 * num <<< 1074 := by
    rw [← Nat.mul_le_mul_right_iff factor, bound, point, Nat.mul_le_mul_right_iff tens]
  have above (a : Nat) : p ≤ a * d.quarter ↔ 4 * num <<< 1074 ≤ a * den <<< d.scale := by
    rw [← Nat.mul_le_mul_right_iff factor, bound, point, Nat.mul_le_mul_right_iff tens]
  rw [interval_eq, Interval.contains] at inside
  simp only [beq_iff_eq] at inside
  split at inside
  · next even =>
      simp only [Bool.and_eq_true, decide_eq_true_eq, below, above] at inside
      exact ⟨inside.1, inside.2, fun _ => even⟩
  · simp only [Bool.and_eq_true, decide_eq_true_eq, ← Nat.not_le, below, above] at inside
    exact ⟨by omega, by omega, by omega⟩

theorem contains_value {d : Dyadic} (more : d.significand ≠ 0) :
    d.interval.contains d.interval.value = true := by
  have low : (4 * d.significand - d.reach) * d.quarter < 4 * d.significand * d.quarter :=
    Nat.mul_lt_mul_of_pos_right (by have := d.reach_cases; omega) d.quarter_pos
  have high : 4 * d.significand * d.quarter < (4 * d.significand + 2) * d.quarter :=
    Nat.mul_lt_mul_of_pos_right (by omega) d.quarter_pos
  rw [interval_eq, Interval.contains]
  split <;> simp [low, high, Nat.le_of_lt]

/-- The shortest decimal for a number is near it, also with zeros added. -/
theorem near_shortest {d : Dyadic} (more : d.significand ≠ 0) (tie : Tie) (zeros : Nat) :
    d.Near ((d.shortest tie).digits * 10 ^ zeros * 10 ^ ((d.shortest tie).exponent - zeros).toNat)
      (10 ^ (-((d.shortest tie).exponent - zeros)).toNat) := by
  obtain ⟨k, grid, inside⟩ := Interval.contains_shortest tie (contains_value more)
  have found : d.shortest tie = ⟨(d.interval.shortest tie).digits,
      (d.interval.shortest tie).exponent - d.places⟩ := rfl
  rw [found]
  generalize d.interval.shortest tie = s at grid inside ⊢
  refine near_of_contains inside ?_ (Nat.pow_pos (by decide))
  simp only [grid, mul_assoc, ← pow_add]
  congr 2
  omega

theorem digits_shortest_ne_zero {d : Dyadic} (canonical : d.Canonical)
    (more : d.significand ≠ 0) (tie : Tie) : (d.shortest tie).digits ≠ 0 := by
  have some := ((near_shortest more tie 0).size canonical more).1
  rwa [pow_zero, mul_one] at some

end Dyadic

end Decimal

namespace Json

/-- A decimal that is near a number is read as that number. -/
theorem nearestReal?_of_near {d : Decimal.Dyadic} {n : Nat} {e : Int}
    (near : d.Near (n * 10 ^ e.toNat) (10 ^ (-e).toNat)) (canonical : d.Canonical)
    (more : d.significand ≠ 0) : nearestReal? d.negative n e = some d.toFloat := by
  have ⟨digits, long, short⟩ := near.size canonical more
  have whole : (if 0 ≤ e then n * Nat.pow 10 e.toNat else n) = n * 10 ^ e.toNat := by
    split
    · rfl
    · rw [show e.toNat = 0 by omega, pow_zero, mul_one]
  have part : (if 0 ≤ e then 1 else Nat.pow 10 (-e).toNat) = 10 ^ (-e).toNat := by
    split
    · rw [show (-e).toNat = 0 by omega, pow_zero]
    · rfl
  unfold nearestReal?
  simp only [whole, part]
  rw [if_neg (by omega), if_neg (by omega), near.nearest? canonical (Nat.pow_pos (by decide)),
    Option.map_some]

theorem nearestReal?_zero {d : Decimal.Dyadic} (canonical : d.Canonical)
    (zero : d.significand = 0) (e : Int) : nearestReal? d.negative 0 e = some d.toFloat := by
  have near : d.Near 0 1 := ⟨by simp [zero], by simp, fun _ => by simp [zero]⟩
  unfold nearestReal?
  simp only [true_or, if_true]
  rw [near.nearest? canonical Nat.one_pos, Option.map_some]

end Json

end Logo
