import RetainedScene.Proofs.Number.Magnitude
import RetainedScene.Proofs.Number.Units

/-!
# Remainders and wrapping

A remainder is exact: what is left of a number has no more bits than the divisor, or is the number
itself. So wrapping leads between zero and the length, and leaves what is there already as it is.
-/

set_option autoImplicit false

namespace RetainedScene.Binary32

open Float.Model (UnpackedFloat)
open Float.Model.UnpackedFloat

namespace InUnits

variable {a b c d k s t : Nat}

/-- The zeros at the end that 24 bits leave over become the second part. -/
theorem exists_of_mul (hk : k < 2 ^ 24) (hs : s ≤ 253) :
    ∃ c d, InUnits c d ∧ c <<< d = k * 2 ^ s := by
  rcases Nat.lt_or_ge (k * 2 ^ s) (2 ^ 24) with hsmall | hlarge
  · exact ⟨k * 2 ^ s, 0, ⟨hsmall, .inr rfl, by omega⟩, Nat.shiftLeft_zero⟩
  have hpos : k ≠ 0 := by
    rintro rfl
    omega
  have hlog : (k * 2 ^ s).log2 = k.log2 + s := by
    rw [← Nat.shiftLeft_eq]
    exact log2_shiftLeft (Nat.pos_of_ne_zero hpos) s
  have hk' : k.log2 < 24 := (Nat.log2_lt hpos).mpr hk
  have hlow : 24 ≤ k.log2 + s := by
    rw [← hlog]
    exact (Nat.le_log2 (by omega)).mpr hlarge
  obtain ⟨spare, hspare⟩ : ∃ spare, spare = 23 - k.log2 := ⟨_, rfl⟩
  have hself := Nat.log2_self_le hpos
  have hself' := @Nat.lt_log2_self k
  refine ⟨k * 2 ^ spare, s - spare, ⟨?_, .inl ?_, by omega⟩, ?_⟩
  · calc k * 2 ^ spare < 2 ^ (k.log2 + 1) * 2 ^ spare :=
          Nat.mul_lt_mul_of_pos_right hself' (Nat.two_pow_pos spare)
      _ = 2 ^ (k.log2 + 1 + spare) := (pow_add ..).symm
      _ = 2 ^ 24 := by
          congr 1
          omega
  · calc 2 ^ 23 = 2 ^ (k.log2 + spare) := by
          congr 1
          omega
      _ = 2 ^ k.log2 * 2 ^ spare := pow_add ..
      _ ≤ k * 2 ^ spare := Nat.mul_le_mul_right _ hself
  · rw [Nat.shiftLeft_eq, mul_assoc, ← pow_add]
    congr 2
    omega

theorem exists_mod (ha : InUnits a s) (hb : InUnits b t) (hpos : 0 < b) :
    ∃ c d, InUnits c d ∧ c <<< d = a <<< s % b <<< t := by
  rcases Nat.lt_or_ge s t with hst | hts
  -- With fewer zeros at its end the number is less than the divisor.
  · have hfull : 2 ^ 23 ≤ b := hb.full.resolve_right (by omega)
    have hlt : a <<< s < b <<< t := by
      rw [Nat.shiftLeft_eq, Nat.shiftLeft_eq]
      calc a * 2 ^ s < 2 ^ 24 * 2 ^ s := Nat.mul_lt_mul_of_pos_right ha.below (Nat.two_pow_pos s)
        _ = 2 ^ 23 * 2 ^ (s + 1) := by rw [pow_succ 2 s]; ring
        _ ≤ b * 2 ^ t := Nat.mul_le_mul hfull (Nat.pow_le_pow_right two_pos hst)
    exact ⟨a, s, ha, (Nat.mod_eq_of_lt hlt).symm⟩
  · have hmod : a <<< s % b <<< t = a * 2 ^ (s - t) % b * 2 ^ t := by
      rw [Nat.shiftLeft_eq, Nat.shiftLeft_eq, ← Nat.mul_mod_mul_right, mul_assoc, ← pow_add]
      congr 3
      omega
    rw [hmod]
    exact exists_of_mul ((Nat.mod_lt _ hpos).trans hb.below) hb.fits

end InUnits

section

variable {x y : Float32}

theorem isFinite_withSign (negative : Bool) (x : Float32) :
    (withSign negative x).isFinite = x.isFinite := by
  cases negative
  · rfl
  · exact isFinite_neg

theorem value_withSign (negative : Bool) (x : Float32) :
    value (withSign negative x) = signed (if negative then .negative else .positive) (value x) := by
  cases negative
  · rfl
  · exact value_neg

variable (hy : y.isFinite = true) (hpos : 0 < y)

include hy hpos

theorem units_pos : 0 < units y := by
  rw [← value_pos_iff hy, value_eq_units hy] at hpos
  refine Nat.pos_of_ne_zero fun hzero => hpos.ne ?_
  cases isNegative y <;> simp [hzero, signed]

theorem not_isNegative : isNegative y = false := by
  rw [← value_pos_iff hy, value_eq_units hy] at hpos
  by_contra h
  rw [Bool.not_eq_false] at h
  rw [h, if_pos rfl, signed, neg_pos] at hpos
  exact absurd hpos (not_lt.mpr (by positivity))

theorem value_eq_units_of_pos : value y = units y * 2 ^ (-149 : ℤ) := by
  rw [value_eq_units hy, not_isNegative hy hpos]
  rfl

theorem unpack_abs : y.abs.toModel.unpack = y.toModel.unpack := by
  obtain ⟨hcanonical, hstored⟩ := unpack_isCanonical y.toModel.toBits.toBitVec
  change IsCanonical y.toModel.unpack at hcanonical
  change overflowed y.toModel.unpack = y.toModel.unpack at hstored
  have habs : y.toModel.unpack.abs = y.toModel.unpack := by
    obtain ⟨m, e, hm, hu⟩ := exists_positive hy ((value_pos_iff hy).mpr hpos)
    rw [hu]
    rfl
  change (Float32.ofModel (.pack y.toModel.unpack.abs)).toModel.unpack = _
  rw [habs]
  exact (unpack_ofModel_pack hcanonical).trans hstored

section

variable (hx : x.isFinite = true)

include hx

theorem remainder_eq :
    remainder x y = withSign (isNegative x) (nearest (units x % units y) 1) := by
  have hzero : (y == 0) = false := by
    by_contra h
    have hvalue := (finite_of_beq_zero (Bool.not_eq_false _ ▸ h)).2
    rw [← value_pos_iff hy, hvalue] at hpos
    exact absurd rfl hpos.ne
  have hinf : y.isInf = false := by
    change y.toModel.unpack.isFinite = true at hy
    change y.toModel.unpack.isInf = false
    cases h : y.toModel.unpack <;> rw [h] at hy <;> first | rfl | cases hy
  have hdivides : (!x.isFinite || y.isNaN || y == 0) = false := by
    rw [hx, isNaN_of_isFinite hy, hzero]
    rfl
  rw [remainder, hdivides, hinf, if_neg Bool.false_ne_true, if_neg Bool.false_ne_true]

/-- The remainder of the units, with the sign of `x`. -/
theorem value_remainder : (remainder x y).isFinite = true ∧
    value (remainder x y) = signed (if isNegative x then .negative else .positive)
      ((units x % units y : Nat) * 2 ^ (-149 : ℤ)) := by
  obtain ⟨a, s, ha, hunits⟩ := exists_units hx
  obtain ⟨b, t, hb, hunits'⟩ := exists_units hy
  have hpositive := units_pos hy hpos
  rw [hunits'] at hpositive
  obtain ⟨c, d, hin, hmod⟩ := ha.exists_mod hb (Nat.shiftLeft_pos_iff.mp hpositive)
  obtain ⟨hfinite, hvalue⟩ := hin.value_nearest
  rw [remainder_eq hy hpos hx, hunits, hunits', ← hmod, isFinite_withSign, value_withSign, hvalue]
  exact ⟨hfinite, rfl⟩

theorem abs_value_remainder_lt : |value (remainder x y)| < value y := by
  rw [(value_remainder hy hpos hx).2, abs_signed (by positivity), value_eq_units_of_pos hy hpos]
  have hlt : ((units x % units y : Nat) : ℚ) < units y := by
    exact_mod_cast Nat.mod_lt _ (units_pos hy hpos)
  exact mul_lt_mul_of_pos_right hlt (by positivity)

/-- A negative remainder is brought up by the length, which may round to the length itself. -/
theorem wrap_between : 0 ≤ wrap x y ∧ wrap x y ≤ y := by
  have hfinite := (value_remainder hy hpos hx).1
  obtain ⟨hlow, hhigh⟩ := abs_lt.mp (abs_value_remainder_lt hy hpos hx)
  unfold wrap
  dsimp only
  split_ifs with hneg
  · have hunpack := unpack_abs hy hpos
    have habs : y.abs.isFinite = true := (congrArg UnpackedFloat.isFinite hunpack).trans hy
    have hvalue : value y.abs = value y := congrArg valueOf hunpack
    rw [← value_lt_iff hfinite rfl, value_zero] at hneg
    have hsum := RoundsTo.add hfinite habs
    rw [hvalue] at hsum
    have hleast := hsum.atLeast representable_zero (by linarith)
    have hmost := hsum.atMost (value_representable y) (by linarith)
    exact ⟨atLeast_zero_iff.mp hleast, hmost.le (atLeast_value hy)⟩
  · exact ⟨le_of_not_lt (isNaN_of_isFinite hfinite) rfl hneg, (value_le_iff hfinite hy).mp hhigh.le⟩

end

/-- A number that is less than the divisor is its own remainder, down to the sign of a zero. -/
theorem remainder_eq_self (hx : 0 ≤ x) (hlt : x < y) : remainder x y = x := by
  have hfinite : x.isFinite = true :=
    ((atMost_value hy).of_le (le_of_lt hlt)).isFinite (atLeast_zero_iff.mpr hx)
  by_cases hzero : x ≤ 0
  · have heq := remainder_eq hy hpos hfinite
    obtain ⟨-, -, rfl | ⟨rfl, hnone⟩ | ⟨rfl, -⟩⟩ :=
      Float32.beq_iff_ne_nan_and_eq.mp (beq_of_le_of_le hzero hx)
    · rw [heq, show units 0 = 0 from rfl, Nat.zero_mod]
      decide
    · exact absurd hnone (by decide)
    · rw [heq, show units (-0) = 0 from rfl, Nat.zero_mod]
      decide
  have hx0 : 0 < x := lt_of_not_le (isNaN_of_isFinite hfinite) rfl hzero
  have hunits : units x < units y := by
    rw [← value_lt_iff hfinite hy, value_eq_units_of_pos hfinite hx0,
      value_eq_units_of_pos hy hpos] at hlt
    exact_mod_cast lt_of_mul_lt_mul_right hlt (by positivity)
  obtain ⟨hremainder, hvalue⟩ := value_remainder hy hpos hfinite
  rw [Nat.mod_eq_of_lt hunits, ← value_eq_units hfinite] at hvalue
  have hplain {z : Float32} (hz : z.isFinite = true) (hzvalue : value z = value x) : z ≠ -0 :=
    ne_neg_zero_of_pos (atLeast_value hz) (by rw [hzvalue]; exact (value_pos_iff hfinite).mpr hx0)
  exact eq_of_le_of_le (hplain hremainder hvalue) (hplain hfinite rfl)
    ((value_le_iff hremainder hfinite).mp hvalue.le) ((value_le_iff hfinite hremainder).mp hvalue.ge)

theorem wrap_eq_self (hx : 0 ≤ x) (hlt : x < y) : wrap x y = x := by
  rw [wrap, remainder_eq_self hy hpos hx hlt]
  exact if_neg (not_lt_of_le hx)

end

end RetainedScene.Binary32
