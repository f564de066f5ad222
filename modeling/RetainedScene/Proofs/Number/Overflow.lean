import RetainedScene.Proofs.Number.Error

/-!
# Infinite results

A quotient is finite only if what is divided is, and what lies past the largest number by half a
unit is rounded to infinity.
-/

set_option autoImplicit false

namespace RetainedScene.Binary32

open Float.Model (Format UnpackedFloat)
open Float.Model.UnpackedFloat

variable {x y : Float32} {v : ℚ}

theorem IsInfinite.isInf {sign : Sign} (h : IsInfinite sign x) : x.isInf = true :=
  congrArg UnpackedFloat.isInf h

theorem isFinite_eq_not_isInf (hx : x.isNaN = false) : x.isFinite = !x.isInf := by
  change x.toModel.unpack.isNaN = false at hx
  change x.toModel.unpack.isFinite = !x.toModel.unpack.isInf
  generalize x.toModel.unpack = u at hx ⊢
  cases u <;> first | rfl | cases hx

theorem isInf_of_isFinite (hx : x.isFinite = true) : x.isInf = false := by
  rwa [isFinite_eq_not_isInf (isNaN_of_isFinite hx), Bool.not_eq_true'] at hx

theorem isFinite_pack {u : UnpackedFloat} (h : u = .notANumber ∨ ∃ sign, u = .infinity sign) :
    (Float32.ofModel (.pack u)).isFinite = false := by
  rcases h with rfl | ⟨sign, rfl⟩
  · rfl
  · exact (isInfinite_pack rfl).isFinite

/-- What is not finite makes no finite quotient. -/
theorem isFinite_of_div (h : (x / y).isFinite = true) : x.isFinite = true := by
  change (Float32.ofModel (.pack (x.toModel.unpack.div .binary32 y.toModel.unpack))).isFinite = true
    at h
  change x.toModel.unpack.isFinite = true
  generalize x.toModel.unpack = u at h ⊢
  generalize y.toModel.unpack = w at h
  cases u with
  | zero | finite => rfl
  | notANumber =>
    rw [isFinite_pack (.inl (by cases w <;> rfl))] at h
    cases h
  | infinity s =>
    rw [isFinite_pack (by cases w <;> first | exact .inl rfl | exact .inr ⟨_, rfl⟩)] at h
    cases h

theorem isNaN_sub_left (hx : x.isNaN = true) (y : Float32) : (x - y).isNaN = true := by
  have hnan : x.toModel.unpack = .notANumber := by
    change x.toModel.unpack.isNaN = true at hx
    generalize x.toModel.unpack = u at hx ⊢
    cases u <;> first | rfl | cases hx
  have hsub : UnpackedFloat.sub .binary32 .notANumber y.toModel.unpack = .notANumber := by
    cases y.toModel.unpack <;> rfl
  change (Float32.ofModel (.pack (x.toModel.unpack.sub .binary32 y.toModel.unpack))).isNaN = true
  rw [hnan, hsub]
  rfl

/-- Half a unit past the largest number is too far. -/
theorem RoundsTo.isInfinite (h : RoundsTo v x) (hv : 2 ^ 128 + 2 ^ 105 ≤ v) :
    IsInfinite .positive x := by
  have hpos : 0 < v := lt_of_lt_of_le (by norm_num) hv
  rcases h.atLeast representable_zero hpos.le with hx | ⟨hx, -⟩
  · exact hx
  · have herror := h.error hx
    have hsmall : (1 : ℚ) / 2 ^ 126 ≤ v :=
      (show (1 : ℚ) / 2 ^ 126 ≤ 2 ^ 128 + 2 ^ 105 by norm_num).trans hv
    rw [abs_of_pos hpos, max_eq_left hsmall] at herror
    have hlimit := (abs_lt.mp (abs_value_lt x)).2
    have hdistance := neg_abs_le (value x - v)
    norm_num at hv hlimit herror
    linarith

end RetainedScene.Binary32
