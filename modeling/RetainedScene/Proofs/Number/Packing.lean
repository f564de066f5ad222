import Mathlib
import RetainedScene.Number.Scalar

/-!
# Binary32 numbers and their parts

The result of an operation is written into a bit pattern, and the next operation reads it from
there. A number in canonical form comes back as it was, or as infinity when its exponent does not
fit.
-/

set_option autoImplicit false

namespace RetainedScene.Binary32

open Float.Model (Format UnpackedFloat)
open Float.Model.UnpackedFloat

/-- At most 24 bits, and fewer than 24 only at the least exponent. -/
structure Canonical (mantissa : Nat) (exponent : ℤ) : Prop where
  below : mantissa < 2 ^ 24
  least : -149 ≤ exponent
  full : 2 ^ 23 ≤ mantissa ∨ exponent = -149

/-- Zero as well as both infinities and NaN have one form only. -/
def IsCanonical : UnpackedFloat → Prop
  | .finite _ mantissa exponent _ => Canonical mantissa exponent
  | _ => True

/-- The largest exponent of a finite number is 104. -/
def overflowed : UnpackedFloat → UnpackedFloat
  | .finite sign mantissa exponent positive =>
    if exponent ≤ 104 then .finite sign mantissa exponent positive else .infinity sign
  | u => u

theorem toNat_append_one (mantissa : BitVec 23) :
    (1#1 ++ mantissa).toNat = 2 ^ 23 + mantissa.toNat := by
  rw [BitVec.toNat_append, ← Nat.shiftLeft_add_eq_or_of_lt mantissa.isLt]
  simp [Nat.shiftLeft_eq]

section

variable (sign : Sign)

theorem unpack_packComponents_normal (exponent : BitVec 8) (mantissa : BitVec 23)
    (hlow : 0 < exponent.toNat) (hhigh : exponent.toNat < 255) :
    ∃ h, unpack .binary32 (packComponents .binary32 sign exponent mantissa) =
      .finite sign (2 ^ 23 + mantissa.toNat) (exponent.toNat - 150) h := by
  have hones : ¬ exponent = -1#8 := by
    rintro rfl
    simp at hhigh
  have hzero : ¬ exponent = 0#8 := by
    rintro rfl
    simp at hlow
  refine ⟨by omega, ?_⟩
  unfold unpack
  simp only [unpackMantissa_packComponents, unpackExponent_packComponents,
    unpackSign_packComponents, Sign.ofBitVec_toBitVec, if_neg hones, if_neg hzero, toNat_append_one]
  rfl

theorem unpack_packComponents_subnormal {mantissa : BitVec 23} (hpos : 0 < mantissa.toNat) :
    unpack .binary32 (packComponents .binary32 sign 0 mantissa) =
      .finite sign mantissa.toNat (-149) hpos := by
  have hmantissa : ¬ mantissa = 0#23 := by
    rintro rfl
    simp at hpos
  unfold unpack
  simp only [unpackMantissa_packComponents, unpackExponent_packComponents,
    unpackSign_packComponents, Sign.ofBitVec_toBitVec, dif_neg hmantissa]
  rfl

theorem unpack_packedInfinity :
    unpack .binary32 (packedInfinity .binary32 sign) = .infinity sign := by
  cases sign <;> rfl

/-- Finite numbers below 2¹²⁸ are written and read without loss. -/
theorem unpack_pack {u : UnpackedFloat} (h : IsCanonical u) :
    unpack .binary32 (u.pack .binary32) = overflowed u := by
  cases u with
  | notANumber => rfl
  | infinity sign => exact unpack_packedInfinity sign
  | zero sign => exact unpack_packedZero
  | finite sign mantissa exponent positive =>
    obtain ⟨hbelow, hleast, hfull⟩ : Canonical mantissa exponent := h
    have hbias : (exponent + 127 + 23).toNat = exponent + 150 := by omega
    have hlog : mantissa.log2 < 24 := (Nat.log2_lt positive.ne').mpr hbelow
    unfold pack
    change unpack .binary32 (if 256 ≤ (exponent + 127 + 23).toNat + 1 then _
      else if mantissa.log2 + 1 = 24 then packComponents .binary32 sign
        (BitVec.ofNat 8 (exponent + 127 + 23).toNat) (BitVec.ofNat 23 mantissa) else _) =
      if exponent ≤ 104 then _ else _
    by_cases hfits : exponent ≤ 104
    · rw [if_neg (by omega), if_pos hfits]
      by_cases hnormal : 2 ^ 23 ≤ mantissa
      · have hlog' : 23 ≤ mantissa.log2 := (Nat.le_log2 positive.ne').mpr hnormal
        rw [if_pos (by omega)]
        obtain ⟨hpos, heq⟩ := unpack_packComponents_normal sign
          (BitVec.ofNat 8 (exponent + 127 + 23).toNat) (BitVec.ofNat 23 mantissa)
          (by rw [BitVec.toNat_ofNat]; omega) (by rw [BitVec.toNat_ofNat]; omega)
        refine heq.trans ?_
        simp only [BitVec.toNat_ofNat]
        congr 1 <;> omega
      · have hlog' : mantissa.log2 < 23 := (Nat.log2_lt positive.ne').mpr (by omega)
        rw [if_neg (by omega)]
        have hmantissa : (BitVec.ofNat 23 mantissa).toNat = mantissa := by
          rw [BitVec.toNat_ofNat]
          omega
        refine (unpack_packComponents_subnormal sign (by rw [hmantissa]; exact positive)).trans ?_
        obtain rfl := hfull.resolve_left hnormal
        simp only [hmantissa]
    · rw [if_pos (by omega), if_neg hfits]
      exact unpack_packedInfinity sign

end

theorem unpack_isCanonical (b : BitVec 32) :
    IsCanonical (unpack .binary32 b) ∧ overflowed (unpack .binary32 b) = unpack .binary32 b := by
  have hmantissa : (@unpackMantissa .binary32 b).toNat < 2 ^ 23 := BitVec.isLt _
  have hexponent : (@unpackExponent .binary32 b).toNat < 2 ^ 8 := BitVec.isLt _
  unfold unpack
  simp only
  split_ifs with hones hinfinite hleast hzero
  · exact ⟨trivial, rfl⟩
  · exact ⟨trivial, rfl⟩
  · exact ⟨trivial, rfl⟩
  · rw [hleast]
    exact ⟨⟨by omega, by decide, .inr (by decide)⟩, rfl⟩
  · have hpos : (@unpackExponent .binary32 b).toNat ≠ 0 :=
      fun h => hleast (BitVec.eq_of_toNat_eq h)
    have hlast : (@unpackExponent .binary32 b).toNat ≠ 255 :=
      fun h => hones (BitVec.eq_of_toNat_eq h)
    have happend := toNat_append_one (@unpackMantissa .binary32 b)
    have hbias : ((Format.exponentBias .binary32 : ℤ) + (23 : Nat)) = 150 := rfl
    rw [hbias]
    refine ⟨⟨?_, ?_, .inl ?_⟩, if_pos ?_⟩ <;> omega

end RetainedScene.Binary32
