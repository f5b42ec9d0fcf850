import Mathlib
import BotScript.Number.Parts

/-!
# Doubles and their parts

A double is known by its parts: sign, mantissa and exponent take up all of its bits, and there is
only one double that is not a number. Its opposite has the other sign and is the same otherwise.

## Main definitions

* `Regular`: a mantissa and an exponent that belong to a double.
* `Parts.opposite`: the parts with the other sign.

## Main results

* `Parts.regular_of_finite`: the parts of a double are regular.
* `Parts.ofFloat_injective`: a double is known by its parts.
* `Parts.ofFloat_neg`: the parts of the opposite.
-/

namespace BotScript.Number

open Float.Model Float.Model.UnpackedFloat
open Float.Model.Format (binary64)

/-- A mantissa and an exponent that belong to a double. Only the least exponent admits mantissas
without the hidden bit. -/
structure Regular (m : Nat) (e : Int) : Prop where
  lt : m < 2 ^ 53
  least_le : -1074 ≤ e
  hidden_le : -1074 < e → 2 ^ 52 ≤ m

namespace Parts

variable {x y : Float} {negative negative' : Bool} {biased biased' fraction fraction' m : Nat}
  {e : Int}

/-- The parts that the three fields of a double stand for. -/
def ofFields (negative : Bool) (biased fraction : Nat) : Parts :=
  if biased = 2047 then
    if fraction = 0 then .infinite negative else .notANumber
  else if biased = 0 then .finite negative fraction (-1074)
  else .finite negative (2 ^ 52 + fraction) (Int.ofNat biased - 1075)

theorem ofFloat_eq (x : Float) :
    ofFloat x = ofFields (2 ^ 63 ≤ x.toBits.toNat) (x.toBits.toNat / 2 ^ 52 % 2 ^ 11)
      (x.toBits.toNat % 2 ^ 52) := rfl

/-- The parts of a finite double belong to a double. -/
theorem regular_of_finite (h : ofFloat x = .finite negative m e) : Regular m e := by
  have hbiased : x.toBits.toNat / 2 ^ 52 % 2 ^ 11 < 2 ^ 11 := Nat.mod_lt _ (by decide)
  have hfraction : x.toBits.toNat % 2 ^ 52 < 2 ^ 52 := Nat.mod_lt _ (by decide)
  rw [ofFloat_eq, ofFields] at h
  split_ifs at h with hspecial hzero hleast
  · cases h
    exact ⟨by omega, Int.le_refl _, fun hlt => absurd hlt (Int.lt_irrefl _)⟩
  · cases h
    refine ⟨by omega, ?_, fun _ => by omega⟩
    rw [Int.ofNat_eq_natCast]
    omega

/-! ### A double is known by its parts -/

theorem ofFields_inj (hfraction : fraction < 2 ^ 52) (hfraction' : fraction' < 2 ^ 52)
    (hnumber : ofFields negative biased fraction ≠ .notANumber)
    (h : ofFields negative biased fraction = ofFields negative' biased' fraction') :
    negative = negative' ∧ biased = biased' ∧ fraction = fraction' := by
  unfold ofFields at h hnumber
  split_ifs at h hnumber <;> simp only [infinite.injEq, finite.injEq] at h
  · exact ⟨h, by omega, by omega⟩
  · exact absurd rfl hnumber
  · exact ⟨h.1, by omega, h.2.1⟩
  · omega
  · omega
  · have hexponent := h.2.2
    rw [Int.ofNat_eq_natCast, Int.ofNat_eq_natCast] at hexponent
    exact ⟨h.1, by omega, by omega⟩

theorem toNat_unpackExponent (b : BitVec binary64.numBits) :
    (unpackExponent b).toNat = b.toNat / 2 ^ 52 % 2 ^ 11 := by
  simp [unpackExponent, BitVec.extractLsb, Nat.shiftRight_eq_div_pow]

theorem toNat_unpackMantissa (b : BitVec binary64.numBits) :
    (unpackMantissa b).toNat = b.toNat % 2 ^ 52 := by
  simp [unpackMantissa, BitVec.extractLsb]

theorem toNat_unpackSign (b : BitVec binary64.numBits) :
    (unpackSign b).toNat = b.toNat / 2 ^ 63 := by
  have hlt : b.toNat < 2 ^ 64 := b.isLt
  have hone : b.toNat / 2 ^ 63 % 2 = b.toNat / 2 ^ 63 := by omega
  simpa [unpackSign, BitVec.extractLsb, Nat.shiftRight_eq_div_pow] using hone

/-- There is only one double that is not a number. -/
theorem toBitVec_of_notANumber (h : ofFloat x = .notANumber) :
    x.toBits.toBitVec = packedNaN binary64 := by
  rw [ofFloat_eq, ofFields] at h
  split_ifs at h with hspecial hfraction
  apply x.toModel.valid.eq_packedNaN
  · apply BitVec.eq_of_toNat_eq
    rw [toNat_unpackExponent]
    exact hspecial
  · intro hzero
    apply hfraction
    have hmantissa := congrArg BitVec.toNat hzero
    rw [toNat_unpackMantissa] at hmantissa
    exact hmantissa

/-- Sign, exponent and mantissa take up all bits, so a double is known by its parts. -/
theorem ofFloat_injective : Function.Injective ofFloat := by
  intro x y h
  apply Float.toBits_inj.1
  by_cases hnumber : ofFloat x = .notANumber
  · have hx := toBitVec_of_notANumber hnumber
    have hy := toBitVec_of_notANumber (h ▸ hnumber)
    exact UInt64.toBitVec_inj.1 (hx.trans hy.symm)
  · have hx := x.toBits.toNat_lt
    have hy := y.toBits.toNat_lt
    rw [ofFloat_eq] at h hnumber
    rw [ofFloat_eq] at h
    obtain ⟨hsign, hbiased, hfraction⟩ := ofFields_inj (Nat.mod_lt _ (by decide))
      (Nat.mod_lt _ (by decide)) hnumber h
    rw [decide_eq_decide] at hsign
    apply UInt64.toNat_inj.1
    omega

/-! ### The opposite -/

/-- The parts with the other sign. -/
def opposite : Parts → Parts
  | notANumber => notANumber
  | infinite negative => infinite !negative
  | finite negative m e => finite (!negative) m e

theorem opposite_ofFields (negative : Bool) (biased fraction : Nat) :
    (ofFields negative biased fraction).opposite = ofFields (!negative) biased fraction := by
  unfold ofFields
  split_ifs <;> rfl

theorem toNat_packComponents (s : Sign) (exponent : BitVec 11) (mantissa : BitVec 52) :
    (packComponents binary64 s exponent mantissa).toNat =
      s.toBitVec.toNat * 2 ^ 63 + exponent.toNat * 2 ^ 52 + mantissa.toNat := by
  simp only [packComponents, BitVec.toNat_append]
  rw [← Nat.shiftLeft_add_eq_or_of_lt mantissa.isLt, ← Nat.shiftLeft_add_eq_or_of_lt exponent.isLt]
  simp only [Nat.shiftLeft_eq]
  omega

/-- The bits with the other sign are those of the opposite. -/
theorem neg_unpack (b : BitVec binary64.numBits) :
    (UnpackedFloat.unpack binary64 b).neg = UnpackedFloat.unpack binary64
      (packComponents binary64 (-Sign.ofBitVec (unpackSign b)) (unpackExponent b)
        (unpackMantissa b)) := by
  simp only [UnpackedFloat.unpack, unpackExponent_packComponents, unpackMantissa_packComponents,
    unpackSign_packComponents, Sign.ofBitVec_toBitVec]
  split_ifs <;> rfl

/-- Only the sign of a number changes when it is taken apart, negated and put together again. -/
theorem pack_neg_unpack (b : BitVec binary64.numBits)
    (h : unpackExponent b = -1#_ → unpackMantissa b = 0#_) :
    UnpackedFloat.pack binary64 (UnpackedFloat.unpack binary64 b).neg =
      packComponents binary64 (-Sign.ofBitVec (unpackSign b)) (unpackExponent b)
      (unpackMantissa b) := by
  rw [neg_unpack, pack_unpack, if_neg]
  simpa [isNaNBits] using h

theorem toBitVec_neg (x : Float) :
    (-x).toBits.toBitVec =
      UnpackedFloat.pack binary64 (UnpackedFloat.unpack binary64 x.toBits.toBitVec).neg := rfl

theorem toNat_toBitVec_neg (s : BitVec 1) : (-Sign.ofBitVec s).toBitVec.toNat = 1 - s.toNat := by
  revert s
  decide

/-- The opposite of a double has the other sign, and the same mantissa and exponent. -/
theorem ofFloat_neg (x : Float) : ofFloat (-x) = (ofFloat x).opposite := by
  by_cases hnumber : ofFloat x = .notANumber
  · have hsame : -x = x := by
      apply Float.toBits_inj.1
      apply UInt64.toBitVec_inj.1
      rw [toBitVec_neg, toBitVec_of_notANumber hnumber]
      rfl
    rw [hsame, hnumber]
    rfl
  · have hbits : (-x).toBits.toNat =
        (1 - x.toBits.toNat / 2 ^ 63) * 2 ^ 63 + x.toBits.toNat / 2 ^ 52 % 2 ^ 11 * 2 ^ 52 +
          x.toBits.toNat % 2 ^ 52 := by
      change (-x).toBits.toBitVec.toNat = _
      rw [toBitVec_neg, pack_neg_unpack, toNat_packComponents, toNat_toBitVec_neg, toNat_unpackSign,
        toNat_unpackExponent, toNat_unpackMantissa]
      · rfl
      · intro hspecial
        by_contra hfraction
        apply hnumber
        have hexponent : x.toBits.toNat / 2 ^ 52 % 2 ^ 11 = 2047 :=
          (toNat_unpackExponent x.toBits.toBitVec).symm.trans (congrArg BitVec.toNat hspecial)
        rw [ofFloat_eq, ofFields, if_pos hexponent, if_neg]
        intro hzero
        apply hfraction
        apply BitVec.eq_of_toNat_eq
        rw [toNat_unpackMantissa]
        exact hzero
    have hlt := x.toBits.toNat_lt
    rw [ofFloat_eq, ofFloat_eq, opposite_ofFields, ← decide_not]
    congr 1
    · rw [decide_eq_decide]
      omega
    · omega
    · omega

end Parts

end BotScript.Number
