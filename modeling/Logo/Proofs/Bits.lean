import Logo.Proofs.Nearest

/-!
Finite numbers and their bits. Taken apart into sign, exponent and mantissa and put together
again, the bits of a finite number are the same, so the number is known from its code.
-/
namespace Logo.Decimal

open Float.Model.Format (binary64)
open Float.Model.UnpackedFloat

section Fields

variable (b : BitVec binary64.numBits)

theorem toNat_unpackMantissa : (unpackMantissa b).toNat = b.toNat % 2 ^ 52 := by
  simp [unpackMantissa, BitVec.extractLsb]

theorem toNat_unpackExponent : (unpackExponent b).toNat = b.toNat / 2 ^ 52 % 2 ^ 11 := by
  simp [unpackExponent, BitVec.extractLsb, Nat.shiftRight_eq_div_pow]

theorem toNat_unpackSign : (unpackSign b).toNat = b.toNat / 2 ^ 63 := by
  have fits : b.toNat < 2 ^ 64 := b.isLt
  have bit : (unpackSign b).toNat = b.toNat >>> 63 % 2 := rfl
  rw [bit, Nat.shiftRight_eq_div_pow]
  omega

theorem toBitVec_ofBitVec (b : BitVec 1) : (Sign.ofBitVec b).toBitVec = b := by
  revert b
  decide

theorem toNat_packComponents (s : Sign) (e : BitVec 11) (m : BitVec 52) :
    (packComponents binary64 s e m).toNat =
      s.toBitVec.toNat * 2 ^ 63 + e.toNat * 2 ^ 52 + m.toNat := by
  unfold packComponents
  rw [BitVec.toNat_append, BitVec.toNat_append, ← Nat.shiftLeft_add_eq_or_of_lt m.isLt,
    ← Nat.shiftLeft_add_eq_or_of_lt e.isLt]
  simp only [Nat.shiftLeft_eq]
  omega

theorem packComponents_unpack :
    packComponents binary64 (Sign.ofBitVec (unpackSign b)) (unpackExponent b)
      (unpackMantissa b) = b := by
  apply BitVec.eq_of_toNat_eq
  rw [toNat_packComponents, toBitVec_ofBitVec, toNat_unpackSign, toNat_unpackExponent,
    toNat_unpackMantissa]
  have := b.isLt
  omega

theorem unpackExponent_eq_neg_one :
    unpackExponent b = -1#11 ↔ Dyadic.finiteCodes ≤ b.toNat % 2 ^ 63 := by
  rw [← BitVec.toNat_inj, toNat_unpackExponent]
  simp only [Dyadic.finiteCodes, Nat.shiftLeft_eq, BitVec.toNat_neg, BitVec.toNat_ofNat]
  omega

/-- Denormal numbers have no bits but those of the mantissa. -/
theorem pack_denormal (s : Sign) {m : BitVec 52} (pos : 0 < m.toNat) :
    pack binary64 (.finite s m.toNat (-1074) pos) = packComponents binary64 s 0 m := by
  have short : m.toNat.log2 < 52 := (Nat.log2_lt pos.ne').mpr m.isLt
  have bits : binary64.mantissaBits = 53 := rfl
  unfold pack
  rw [if_neg (by decide), bits, if_neg (by omega), BitVec.ofNat_toNat, BitVec.setWidth_eq]
  rfl

theorem pack_normal (s : Sign) {e : BitVec 11} {m : BitVec 52} (regular : e.toNat < 2047)
    (pos : 0 < (1#1 ++ m).toNat) :
    pack binary64 (.finite s (1#1 ++ m).toNat (e.toNat - 1075) pos) =
      packComponents binary64 s e m := by
  have fits := m.isLt
  have whole : (1#1 ++ m).toNat = 2 ^ 52 + m.toNat := by
    rw [BitVec.toNat_append, ← Nat.shiftLeft_add_eq_or_of_lt m.isLt]
    rfl
  have long : (1#1 ++ m).toNat.log2 = 52 := by
    rw [Nat.log2_eq_iff pos.ne']
    omega
  have exponent : (e.toNat - 1075 + binary64.exponentBias +
      binary64.mantissaBitsWithoutImplicit : Int).toNat = e.toNat := by
    simp only [Float.Model.Format.exponentBias]
    omega
  unfold pack
  dsimp only
  rw [exponent, if_neg (by omega), if_pos (by rw [long]; rfl), BitVec.ofNat_toNat,
    BitVec.setWidth_eq]
  congr 1
  apply BitVec.eq_of_toNat_eq
  rw [BitVec.toNat_ofNat, whole]
  omega

/-- The unpacked form of a finite number packs to the same bits. -/
theorem pack_unpack (finite : b.toNat % 2 ^ 63 < Dyadic.finiteCodes) :
    pack binary64 (unpack binary64 b) = b := by
  have regular := mt (unpackExponent_eq_neg_one b).mp (by omega)
  have whole := packComponents_unpack b
  unfold unpack
  dsimp only
  rw [if_neg regular]
  by_cases dense : unpackExponent b = 0#11
  · rw [if_pos dense]
    by_cases zero : unpackMantissa b = 0#52
    · rw [dif_pos zero]
      rwa [dense, zero] at whole
    · rw [dif_neg zero, dense]
      rw [dense] at whole
      exact (pack_denormal _ _).trans whole
  · rw [if_neg dense]
    have small : (unpackExponent b).toNat < 2047 := by
      rw [toNat_unpackExponent]
      simp only [Dyadic.finiteCodes, Nat.shiftLeft_eq] at finite
      omega
    exact (pack_normal _ small _).trans whole

theorem isFinite_unpack :
    (unpack binary64 b).isFinite = true ↔ b.toNat % 2 ^ 63 < Dyadic.finiteCodes := by
  rw [← Nat.not_le, ← unpackExponent_eq_neg_one]
  unfold unpack
  dsimp only
  by_cases special : unpackExponent b = -1#11
  · refine iff_of_false ?_ (not_not_intro special)
    rw [if_pos special]
    split <;> exact Bool.false_ne_true
  · refine iff_of_true ?_ special
    rw [if_neg special]
    by_cases dense : unpackExponent b = 0#11
    · rw [if_pos dense]
      by_cases zero : unpackMantissa b = 0#52
      · rw [dif_pos zero]
        rfl
      · rw [dif_neg zero]
        rfl
    · rw [if_neg dense]
      rfl

end Fields

namespace Dyadic

theorem isSome_ofFloat? (x : Float) : (ofFloat? x).isSome = x.isFinite := by
  rw [Bool.eq_iff_iff]
  refine Iff.trans ?_ (isFinite_unpack x.toBits.toBitVec).symm
  simp [ofFloat?, ofCode]

theorem ofBits_toBits {x : Float} (finite : x.isFinite = true) : Float.ofBits x.toBits = x := by
  obtain ⟨⟨⟨bits⟩, valid⟩⟩ := x
  have model (b : BitVec 64) (same : b = bits) (valid' : binary64.Valid b) :
      Float.ofModel ⟨⟨b⟩, valid'⟩ = .ofModel ⟨⟨bits⟩, valid⟩ := by
    subst same
    rfl
  exact model _ (pack_unpack bits ((isFinite_unpack bits).mp finite)) _

theorem toFloat_ofCode (negative : Bool) (n : Nat) :
    (ofCode negative n).toFloat =
      Float.ofBits (.ofNat ((if negative then 1 <<< 63 else 0) + n)) := by
  rw [toFloat, code_ofCode]
  rfl

theorem toFloat_of_ofFloat? {x : Float} {d : Dyadic} (h : ofFloat? x = some d) :
    d.toFloat = x := by
  have finite : x.isFinite = true := by
    rw [← isSome_ofFloat?, h]
    rfl
  simp only [ofFloat?, Option.ite_none_right_eq_some, Option.some.injEq] at h
  obtain ⟨_, rfl⟩ := h
  have bits : (if decide (1 <<< 63 ≤ x.toBits.toNat) then 1 <<< 63 else 0) +
      x.toBits.toNat % 1 <<< 63 = x.toBits.toNat := by
    have fits := x.toBits.toNat_lt
    simp only [Nat.shiftLeft_eq, decide_eq_true_eq]
    split <;> omega
  rw [toFloat_ofCode, bits, UInt64.ofNat_toNat, ofBits_toBits finite]

theorem canonical_of_ofFloat? {x : Float} {d : Dyadic} (h : ofFloat? x = some d) : d.Canonical := by
  simp only [ofFloat?, Option.ite_none_right_eq_some, Option.some.injEq] at h
  obtain ⟨fits, rfl⟩ := h
  exact canonical_ofCode _ fits

end Dyadic

end Logo.Decimal
