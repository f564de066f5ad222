import RetainedScene.Layout.Constraint
import RetainedScene.Proofs.Number.Interpolation
import RetainedScene.Proofs.Path.Lengths

/-!
# Errors along segments

How far the ends of a segment are apart in one coordinate is what its length says, but for rounding,
unless both ends are next to zero. So a path that goes on over short segments does not get far, and
a point at a part of a segment is near the end of it where next to nothing of it is left.
-/

set_option autoImplicit false

namespace RetainedScene

open Binary32 Scalar

namespace Vec2

variable {a : Vec2}

theorem along_sub (a b : Vec2) (axis : Axis) :
    (a - b).along axis = a.along axis - b.along axis := by
  cases axis <;> rfl

theorem along_lerp (a b : Vec2) (t : Float32) (axis : Axis) :
    (a.lerp b t).along axis = a.along axis + (b.along axis - a.along axis) * t := by
  cases axis <;> rfl

theorem isFinite_iff_along : a.isFinite = true ↔ ∀ axis, (a.along axis).isFinite = true := by
  rw [isFinite_iff]
  refine ⟨fun h axis => ?_, fun h => ⟨h .horizontal, h .vertical⟩⟩
  cases axis
  · exact h.1
  · exact h.2

theorem mul_self_along_le_dot (h : ∀ axis, (a.along axis).isNaN = false) (axis : Axis) :
    a.along axis * a.along axis ≤ a.dot a := by
  have hx := mul_self_magnitude (h .horizontal)
  have hy := mul_self_magnitude (h .vertical)
  cases axis
  · exact le_add_of_nonneg hx.isNaN hy.nonneg (hx.add hy).isNaN
  · exact le_nonneg_add hx.nonneg hy.nonneg

end Vec2

/-! ### Moves in one coordinate -/

/-- Up to here numbers may differ by so little that the square of the difference is lost. -/
def nextToZero : ℚ :=
  1 / 2 ^ 38

/-- From `p` to `q` in at most `count` moves of `step`, or by way of numbers next to zero. -/
def Drifts (step : ℚ) (count : Nat) (p q : ℚ) : Prop :=
  |q - p| ≤ count * step ∨
    ∃ m n : Nat, m + n = count ∧ |p| ≤ nextToZero + m * step ∧ |q| ≤ nextToZero + n * step

namespace Drifts

variable {step p q r : ℚ} {count : Nat}

theorem refl (step p : ℚ) : Drifts step 0 p p :=
  .inl (by simp)

theorem move (h : Drifts step count p q) (hmove : |r - q| ≤ step) :
    Drifts step (count + 1) p r := by
  rcases h with h | ⟨m, n, rfl, hp, hq⟩
  · left
    have := abs_sub_le r q p
    push_cast
    linarith
  · refine .inr ⟨m, n + 1, rfl, hp, ?_⟩
    have := abs_sub_abs_le_abs_sub r q
    push_cast
    linarith

theorem jump (h : Drifts step count p q) (hstep : 0 ≤ step) (hq : |q| ≤ nextToZero)
    (hr : |r| ≤ nextToZero) : Drifts step (count + 1) p r := by
  refine .inr ⟨count + 1, 0, rfl, ?_, by simpa using hr⟩
  rcases h with h | ⟨m, n, rfl, hp, -⟩
  · have := abs_sub_abs_le_abs_sub p q
    rw [abs_sub_comm] at this
    push_cast
    linarith
  · have : 0 ≤ (n : ℚ) * step := by positivity
    push_cast
    linarith

theorem abs_sub_le (h : Drifts step count p q) :
    |q - p| ≤ count * step + 2 * nextToZero := by
  have hpos : 0 < nextToZero := by norm_num [nextToZero]
  rcases h with h | ⟨m, n, rfl, hp, hq⟩
  · linarith
  · have := abs_sub q p
    push_cast
    linarith

end Drifts

namespace Segment

variable {points : List Vec2} {segment : Segment} {axis : Axis} {limit : ℚ}

/-- How far the stop is from the start in one coordinate, rounded. -/
def run (segment : Segment) (axis : Axis) : Float32 :=
  segment.stop.along axis - segment.start.along axis

theorem Bounded.isNaN_run (h : segment.Bounded) (axis : Axis) :
    (segment.run axis).isNaN = false :=
  (RoundsTo.sub (Vec2.isFinite_iff_along.mp h.2 axis) (Vec2.isFinite_iff_along.mp h.1 axis)).isNaN

theorem Bounded.mul_self_run_le (h : segment.Bounded) (axis : Axis) :
    segment.run axis * segment.run axis ≤
      (segment.stop - segment.start).dot (segment.stop - segment.start) := by
  have hle := Vec2.mul_self_along_le_dot (a := segment.stop - segment.start)
    (fun axis => by rw [Vec2.along_sub]; exact h.isNaN_run axis) axis
  rwa [Vec2.along_sub] at hle

section

variable (h : segment.Bounded) (hlength : segment.length.isFinite = true)

include h hlength

theorem Bounded.dot_isFinite :
    ((segment.stop - segment.start).dot (segment.stop - segment.start)).isFinite = true :=
  isFinite_of_sqrt (Vec2.dot_self_magnitude h.1 h.2).nonneg hlength

theorem Bounded.mul_self_run_isFinite (axis : Axis) :
    (segment.run axis * segment.run axis).isFinite = true :=
  ((atMost_value (h.dot_isFinite hlength)).of_le (h.mul_self_run_le axis)).isFinite
    (mul_self_magnitude (h.isNaN_run axis)).nonneg

theorem Bounded.run_isFinite (axis : Axis) : (segment.run axis).isFinite = true :=
  isFinite_of_mul_self (h.isNaN_run axis) (h.mul_self_run_isFinite hlength axis)

theorem Bounded.abs_run_lt (axis : Axis) : |value (segment.run axis)| < 2 ^ 65 :=
  abs_value_lt_of_mul_self (h.run_isFinite hlength axis) (h.mul_self_run_isFinite hlength axis)

/-- A segment is as long as what it runs in one coordinate, but for rounding. The square of a tiny
    number is lost. -/
theorem Bounded.abs_run_le (axis : Axis) :
    |value (segment.run axis)| ≤ (1 + 1 / 2 ^ 22) * value segment.length ∨
      |value (segment.run axis)| < 1 / 2 ^ 63 := by
  rcases le_or_gt (1 / 2 ^ 63) |value (segment.run axis)| with hlarge | hsmall
  · left
    have hroot : (1 - 1 / 2 ^ 23) * |value (segment.run axis)| ≤ value segment.length :=
      (atLeast_sqrt_of_mul_self (h.run_isFinite hlength axis) hlarge (h.mul_self_run_le axis)
        (h.dot_isFinite hlength)).le_value hlength
    have hnonneg := abs_nonneg (value (segment.run axis))
    linarith
  · exact .inr hsmall

/-- The ends are no further apart than the length, but for rounding, or they differ by so little
    that they are tiny themselves. -/
theorem Bounded.move (axis : Axis) :
    |value (segment.stop.along axis) - value (segment.start.along axis)| ≤
        (1 + 1 / 2 ^ 21) * value segment.length ∨
      |value (segment.start.along axis)| ≤ nextToZero ∧
        |value (segment.stop.along axis)| ≤ nextToZero := by
  have hstart := Vec2.isFinite_iff_along.mp h.1 axis
  have hstop := Vec2.isFinite_iff_along.mp h.2 axis
  have hnonneg := h.length_magnitude.nonneg.le_value hlength
  by_cases hsame : value (segment.stop.along axis) = value (segment.start.along axis)
  · left
    rw [hsame, Rat.sub_self, abs_zero]
    positivity
  have herror : 2 ^ 24 * |value (segment.run axis) -
      (value (segment.stop.along axis) - value (segment.start.along axis))| ≤
        |value (segment.run axis)| :=
    error_sub hstop hstart (h.run_isFinite hlength axis)
  have hclose := abs_sub_abs_le_abs_sub
    (value (segment.stop.along axis) - value (segment.start.along axis)) (value (segment.run axis))
  rw [abs_sub_comm (value (segment.stop.along axis) - _)] at hclose
  rcases h.abs_run_le hlength axis with hlong | htiny
  · left
    linarith
  · right
    have hapart := apart hstop hstart hsame
    have hapart' := apart hstart hstop (Ne.symm hsame)
    rw [abs_sub_comm] at hapart'
    unfold nextToZero
    constructor <;> linarith

/-- A point at a part of the segment that leaves next to nothing of it. -/
theorem Bounded.stop_error {t : Float32} {total : ℚ} (ht : Within 1 t)
    (hle : value segment.length ≤ total)
    (hleft : 2 ^ 24 * (value segment.length * (1 - value t)) ≤ 4 * total) (axis : Axis) :
    ((segment.start.lerp segment.stop t).along axis).isFinite = true ∧
      (2 ^ 24 - 1) * |value ((segment.start.lerp segment.stop t).along axis) -
          value (segment.stop.along axis)| ≤
        |value (segment.stop.along axis)| + 6 * (1 + 1 / 2 ^ 22) * total + 1 / 2 ^ 38 := by
  have hstart := Vec2.isFinite_iff_along.mp h.1 axis
  have hstop := Vec2.isFinite_iff_along.mp h.2 axis
  have hrun := h.run_isFinite hlength axis
  have hsmall := h.abs_run_lt hlength axis
  have hnonneg := h.length_magnitude.nonneg.le_value hlength
  have hlong : |value (segment.run axis)| ≤
      (1 + 1 / 2 ^ 22) * value segment.length + 1 / 2 ^ 63 := by
    rcases h.abs_run_le hlength axis with hle | hlt <;> linarith
  have hrest : 0 ≤ 1 - value t := sub_nonneg.mpr ht.value_le
  have hrestLong := mul_le_mul_of_nonneg_right hlong hrest
  have herror := interpolate_error hrun hstart hstop ht hsmall
  rw [Vec2.along_lerp]
  refine ⟨interpolate_isFinite hrun hstart hstop ht hsmall, ?_⟩
  change _ ≤ |value (segment.stop.along axis)| + 2 * |value (segment.run axis)| +
    2 ^ 24 * (|value (segment.run axis)| * (1 - value t)) + 1 / 2 ^ 126 at herror
  have hunit := ht.value_nonneg
  linarith

end

theorem getElem?_between {j : Nat} : (between points)[j]? = some segment ↔
    points[j]? = some segment.start ∧ points[j + 1]? = some segment.stop := by
  induction points generalizing j with
  | nil => simp [between]
  | cons a rest ih =>
    cases rest with
    | nil => simp [between]
    | cons b more =>
      cases j with
      | zero =>
        simp only [between, List.getElem?_cons_zero, Option.some.injEq, List.getElem?_cons_succ]
        constructor
        · rintro rfl
          exact ⟨rfl, rfl⟩
        · rintro ⟨rfl, rfl⟩
          rfl
      | succ j => exact ih

/-- How far one gets on short segments, one after the other. -/
theorem drifts_between (hfinite : ∀ point ∈ points, point.isFinite = true) (hlimit : 0 ≤ limit)
    {index count : Nat} {a b : Vec2}
    (hshort : ∀ j segment, index ≤ j → j < index + count → (between points)[j]? = some segment →
      segment.length.isFinite = true ∧ value segment.length ≤ limit)
    (ha : points[index]? = some a) (hb : points[index + count]? = some b) (axis : Axis) :
    Drifts ((1 + 1 / 2 ^ 21) * limit) count (value (a.along axis)) (value (b.along axis)) := by
  induction count generalizing b with
  | zero =>
    obtain rfl : a = b := Option.some.inj (ha.symm.trans hb)
    exact .refl _ _
  | succ count ih =>
    obtain ⟨c, hc⟩ : ∃ c, points[index + count]? = some c := by
      obtain ⟨hlt, -⟩ := List.getElem?_eq_some_iff.mp hb
      exact ⟨_, List.getElem?_eq_getElem (by omega)⟩
    have hdrift := ih (fun j segment hj hj' => hshort j segment hj (by omega)) hc
    have hbounded : Bounded ⟨c, b⟩ :=
      ⟨hfinite c (List.mem_of_getElem? hc), hfinite b (List.mem_of_getElem? hb)⟩
    obtain ⟨hlength, hle⟩ := hshort (index + count) ⟨c, b⟩ (by omega) (by omega)
      (getElem?_between.mpr ⟨hc, hb⟩)
    rcases hbounded.move hlength axis with hmove | ⟨hstart, hstop⟩
    · refine hdrift.move (hmove.trans ?_)
      gcongr
    · exact hdrift.jump (by positivity) hstart hstop

end Segment

end RetainedScene
