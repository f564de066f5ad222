import RetainedScene.Proofs.Number.Error

/-!
# Interpolation between two numbers

A number at a part of the way from one number to another is off by what four operations round. The
part itself is a quotient, of the distance that is left at the end of a sum.
-/

set_option autoImplicit false

namespace RetainedScene.Binary32

variable {a b t : Float32}

theorem Within.abs_mul_le (ht : Within 1 t) (q : ℚ) : |q * value t| ≤ |q| := by
  rw [abs_mul, abs_of_nonneg ht.value_nonneg]
  exact mul_le_of_le_one_right (abs_nonneg q) ht.value_le

section

variable (hdiff : (b - a).isFinite = true) (ha : a.isFinite = true) (hb : b.isFinite = true)
  (ht : Within 1 t) (hsmall : |value (b - a)| < 2 ^ 65)

include hdiff

theorem interpolate_start (ha : a.isFinite = true) (ht : t.isFinite = true)
    (hproduct : value (b - a) * value t = 0) :
    (a + (b - a) * t).isFinite = true ∧ value (a + (b - a) * t) = value a := by
  have hmul := RoundsTo.mul hdiff ht
  rw [hproduct] at hmul
  obtain ⟨hfinite, hzero⟩ := hmul.exact representable_zero
  have hadd := RoundsTo.add ha hfinite
  rw [hzero, add_zero] at hadd
  exact hadd.exact (value_representable a)

include ht hsmall

theorem part_isFinite : ((b - a) * t).isFinite = true ∧ |value ((b - a) * t)| ≤ 2 ^ 65 :=
  (RoundsTo.mul hdiff ht.isFinite).abs_value_le (representable_two_pow (by norm_num))
    ((ht.abs_mul_le _).trans hsmall.le)

include ha hb

/-- Two numbers that differ by less than that are the same or not so large that a sum overflows. -/
theorem interpolate_isFinite : (a + (b - a) * t).isFinite = true := by
  by_cases hsame : value b = value a
  · have hzero := RoundsTo.sub hb ha
    rw [hsame, Rat.sub_self] at hzero
    have hproduct : value (b - a) * value t = 0 := by
      rw [(hzero.exact representable_zero).2, zero_mul]
    exact (interpolate_start hdiff ha ht.isFinite hproduct).1
  · have hapart := apart hb ha hsame
    have herror := error_sub hb ha hdiff
    obtain ⟨hproduct, hpart⟩ := part_isFinite hdiff ht hsmall
    have hrepresentable : Representable (2 ^ 91) := representable_two_pow (by norm_num)
    refine ((RoundsTo.add ha hproduct).abs_value_le hrepresentable ?_).1
    have hsum := abs_add_le (value a) (value ((b - a) * t))
    have hclose := abs_sub_abs_le_abs_sub (value b - value a) (value (b - a))
    rw [abs_sub_comm (value b - value a)] at hclose
    norm_num at hsmall hpart hapart herror ⊢
    linarith

/-- What is left of the way, and what the four operations round. -/
theorem interpolate_error : (2 ^ 24 - 1) * |value (a + (b - a) * t) - value b| ≤
    |value b| + 2 * |value (b - a)| + 2 ^ 24 * (|value (b - a)| * (1 - value t)) +
      1 / 2 ^ 126 := by
  have htiny : (0 : ℚ) < 1 / 2 ^ 126 := by positivity
  have hproduct := (part_isFinite hdiff ht hsmall).1
  have hdifference := error_sub hb ha hdiff
  have hpart : 2 ^ 24 * |value ((b - a) * t) - value (b - a) * value t| ≤
      |value (b - a)| + 1 / 2 ^ 126 := by
    refine ((RoundsTo.mul hdiff ht.isFinite).error hproduct).trans (max_le ?_ ?_)
    · exact (ht.abs_mul_le _).trans (le_add_of_nonneg_right htiny.le)
    · exact le_add_of_nonneg_left (abs_nonneg _)
  have hsum := error_add ha hproduct (interpolate_isFinite hdiff ha hb ht hsmall)
  have hleft : |value (b - a) * (1 - value t)| = |value (b - a)| * (1 - value t) := by
    rw [abs_mul, abs_of_nonneg (sub_nonneg.mpr ht.value_le)]
  have hsplit : value (a + (b - a) * t) - value b =
      (value (a + (b - a) * t) - (value a + value ((b - a) * t))) +
        (value ((b - a) * t) - value (b - a) * value t) +
        (value (b - a) - (value b - value a)) - value (b - a) * (1 - value t) := by
    ring
  have htriangle : |value (a + (b - a) * t) - value b| ≤
      |value (a + (b - a) * t) - (value a + value ((b - a) * t))| +
        |value ((b - a) * t) - value (b - a) * value t| +
        |value (b - a) - (value b - value a)| + |value (b - a)| * (1 - value t) := by
    rw [hsplit, ← hleft]
    refine (abs_sub _ _).trans ?_
    gcongr
    exact abs_add_three _ _ _
  have hclose := abs_sub_abs_le_abs_sub (value (a + (b - a) * t)) (value b)
  linarith

end

/-! ### The part that a distance is of the last summand -/

section

variable {arc walked length : Float32} (harc : arc.isFinite = true)
  (hwalked : walked.isFinite = true) (hlength : length.isFinite = true)

include harc hwalked hlength

theorem part_of_start (harc' : value arc = 0) (hwalked' : value walked = 0)
    (hpos : 0 < value length) : (Scalar.clamp ((arc - walked) / length) 0 1).isFinite = true ∧
      value (Scalar.clamp ((arc - walked) / length) 0 1) = 0 := by
  have hsub := RoundsTo.sub harc hwalked
  rw [harc', hwalked', Rat.sub_self] at hsub
  obtain ⟨hfinite, hzero⟩ := hsub.exact representable_zero
  have hdiv := RoundsTo.div hfinite hlength hpos.ne'
  rw [hzero, zero_div] at hdiv
  obtain ⟨hfinite, hzero⟩ := hdiv.exact representable_zero
  have hlow : 0 ≤ (arc - walked) / length := (value_le_iff rfl hfinite).mp hzero.ge
  have hhigh : (arc - walked) / length ≤ 1 :=
    (value_le_iff hfinite rfl).mp (hzero.trans_le (zero_le_one.trans value_one.ge))
  rw [clamp_eq_self hlow hhigh]
  exact ⟨hfinite, hzero⟩

variable (hsum : (walked + length).isFinite = true) (heq : value arc = value (walked + length))
  (hnonneg : 0 ≤ value walked) (hpos : 0 < value length)

include hsum heq hnonneg hpos

omit harc in
theorem summands_le : value walked ≤ value arc ∧ value length ≤ value arc := by
  have hround := RoundsTo.add hwalked hlength
  rw [heq]
  exact ⟨(hround.atLeast (value_representable walked) (by linarith)).le_value hsum,
    (hround.atLeast (value_representable length) (by linarith)).le_value hsum⟩

theorem distance_within : Within (value arc) (arc - walked) := by
  have hround := RoundsTo.sub harc hwalked
  have hle := (summands_le hwalked hlength hsum heq hnonneg hpos).1
  exact ⟨hround.atLeast representable_zero (by linarith),
    hround.atMost (value_representable arc) (by linarith)⟩

/-- What is left of the summand at the distance of the sum. It would be nothing without rounding of
    the sum, the difference and the quotient. -/
theorem left_of_sum : Within 1 (Scalar.clamp ((arc - walked) / length) 0 1) ∧
    2 ^ 24 * (value length * (1 - value (Scalar.clamp ((arc - walked) / length) 0 1))) ≤
      4 * value arc := by
  have hlength' := (summands_le hwalked hlength hsum heq hnonneg hpos).2
  have hdistance := distance_within harc hwalked hlength hsum heq hnonneg hpos
  have hpart := hdistance.nonneg.div hlength hpos
  have hone : AtMost 1 1 := .inr ⟨rfl, value_one.le⟩
  unfold Scalar.clamp
  rw [if_neg (not_lt_of_le (atLeast_zero_iff.mp hpart))]
  split_ifs with hpast
  · refine ⟨⟨atLeast_zero_iff.mpr (by decide), hone⟩, ?_⟩
    rw [show value 1 = 1 from value_one]
    linarith
  have hwithin : Within 1 ((arc - walked) / length) :=
    ⟨hpart, hone.of_le (le_of_not_lt rfl hpart.isNaN hpast)⟩
  refine ⟨hwithin, ?_⟩
  have hsumError := error_add hwalked hlength hsum
  have hdistanceError := error_sub harc hwalked hdistance.isFinite
  have hquotientError := error_div hdistance.isFinite hlength hdistance.value_nonneg hpos
    hwithin.isFinite
  rw [← heq, abs_of_nonneg (hpos.le.trans hlength')] at hsumError
  rw [abs_of_nonneg hdistance.value_nonneg] at hdistanceError
  have hmost := hdistance.value_le
  have hsumBound := neg_abs_le (value arc - (value walked + value length))
  have hdistanceBound := neg_abs_le (value (arc - walked) - (value arc - value walked))
  have hquotientBound :=
    neg_abs_le (value ((arc - walked) / length) * value length - value (arc - walked))
  norm_num at hsumError hdistanceError hquotientError ⊢
  linarith

end

end RetainedScene.Binary32
