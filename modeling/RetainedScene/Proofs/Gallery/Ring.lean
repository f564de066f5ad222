import RetainedScene.Proofs.Gallery.Places
import RetainedScene.Proofs.Path.Hull

/-!
# Places of dots

The ring has what the grid leaves of the width. Its points go around the middle of that area and do
not get out of it, and so neither do the centers of dots.
-/

set_option autoImplicit false

namespace RetainedScene

open Binary32 Scalar

namespace Gallery

variable {f : Circle.Functions} {g : Gallery} {window : Vec2} {axis : Axis} {o e : ℚ}

/-! ### The area of the ring -/

/-- An interval of pixels that begins and ends within two roundings of exact numbers. -/
structure Spans (o e : ℚ) (origin extent : Float32) : Prop where
  origin : Lies (o - 2 / 2 ^ 10) (o + 2 / 2 ^ 10) origin
  extent : Lies (e - 2 / 2 ^ 10) (e + 2 / 2 ^ 10) extent

theorem ringWidth_lies {width : Float32} (h : Lies 480 10000 width) :
    Lies ((value width - 48) / 3 - 2 / 2 ^ 10) ((value width - 48) / 3 + 2 / 2 ^ 10)
      (ringWidth width) := by
  obtain ⟨hbody, hvalue⟩ := value_bodyWidth h
  have hrest := (Lies.of_value hbody hvalue).sub (gridWidth_lies h) (by linarith [h.low_le])
    (by linarith [h.le_high])
  obtain ⟨hfinite, hring⟩ := value_greater_zero hrest.finite
  rw [max_eq_left (by linarith [hrest.low_le, h.low_le])] at hring
  exact ⟨hfinite, hring ▸ by linarith [hrest.low_le], hring ▸ by linarith [hrest.le_high]⟩

theorem ring_spans (hwidth : Lies 480 10000 window.x) (hheight : Lies 320 10000 window.y)
    (axis : Axis) : ∃ o e, Spans o e ((areas window).ring.origin.along axis)
      ((areas window).ring.size.along axis) ∧ 72 ≤ o ∧ 144 ≤ e ∧
        o + e = value (window.along axis) - 16 := by
  cases axis with
  | horizontal =>
    have horigin := twoMargins_lies.add (gridWidth_lies hwidth) (by linarith [hwidth.low_le])
      (by linarith [hwidth.le_high])
    refine ⟨32 + 2 * (value window.x - 48) / 3, (value window.x - 48) / 3,
      ⟨horigin.mono (by linarith) (by linarith), ringWidth_lies hwidth⟩, ?_, ?_, ?_⟩
    · linarith [hwidth.low_le]
    · linarith [hwidth.low_le]
    · rw [Vec2.along]
      ring
  | vertical =>
    obtain ⟨hbody, hvalue⟩ := value_bodyHeight hheight
    refine ⟨72, value window.y - 88, ⟨bodyTop_lies.mono (by norm_num) (by norm_num),
      (Lies.of_value hbody hvalue).mono (by linarith) (by linarith)⟩, le_rfl, ?_, ?_⟩
    · linarith [hheight.low_le]
    · rw [Vec2.along]
      ring

/-! ### Points and dots -/

theorem ringRadius_lies {size : Vec2} {low high : Axis → ℚ}
    (h : ∀ axis, Lies (low axis) (high axis) (size.along axis)) (hlow : ∀ axis, 0 ≤ low axis)
    (hhigh : ∀ axis, high axis ≤ 2 ^ 14) (axis : Axis) :
    Lies 0 (high axis / 2 + 2 / 2 ^ 10) (ringRadius size) := by
  have hlesser : Lies 0 (high axis) (lesser size.x size.y) := by
    have hle := Constraint.lesser_le (isNaN_of_isFinite (h .horizontal).finite)
      (isNaN_of_isFinite (h .vertical).finite)
    have hleast (axis : Axis) : AtLeast (size.along axis) 0 := (h axis).atLeast.mono (hlow axis)
    refine .of_bounds (Constraint.lesser_of (P := (AtLeast · 0)) (hleast .horizontal)
      (hleast .vertical)) ((h axis).atMost.of_le ?_)
    cases axis with
    | horizontal => exact hle.1
    | vertical => exact hle.2
  have hsum := hlesser.low_le.trans hlesser.le_high
  have hradius := (hlesser.half (by norm_num) (by linarith [hhigh axis])).sub dotSize_lies (by norm_num)
    (by linarith [hhigh axis])
  obtain ⟨hfinite, hvalue⟩ := value_greater_zero hradius.finite
  exact ⟨hfinite, hvalue ▸ le_max_right .., hvalue ▸ max_le (by linarith [hradius.le_high])
    (by linarith)⟩

/-- A coordinate of a point of the ring. -/
theorem lies_coordinate {origin extent radius c : Float32} (h : Spans o e origin extent)
    (hradius : Lies 0 (e / 2 + 3 / 2 ^ 10) radius) (hlow : -1 ≤ c) (hhigh : c ≤ 1) (ho : 0 ≤ o)
    (he : 1 ≤ e) (hlimit : o + e ≤ 10000) :
    Lies (o - 10 / 2 ^ 10) (o + e + 10 / 2 ^ 10) (extent * 0.5 + c * radius + origin) := by
  obtain ⟨hfinite, hone⟩ := abs_value_le_one hlow hhigh
  obtain ⟨hmin, hmax⟩ := abs_le.mp (show |value c * value radius| ≤ e / 2 + 3 / 2 ^ 10 by
    rw [abs_mul, abs_of_nonneg hradius.low_le]
    exact (mul_le_of_le_one_left hradius.low_le hone).trans hradius.le_high)
  have hdistance := Lies.of_round (.mul hfinite hradius.finite) hmin hmax (by linarith)
    (by linarith)
  have hcenter := h.extent.half (by linarith) (by linarith)
  have hpoint := hcenter.add hdistance (by linarith) (by linarith)
  exact (hpoint.add h.origin (by linarith) (by linarith)).mono (by linarith) (by linarith)

theorem not_overflows_of_lies (hwidth : Lies 480 10000 window.x)
    (hheight : Lies 320 10000 window.y) : ¬ Overflows window :=
  not_overflows.mpr ⟨isInf_of_isFinite (gridWidth_lies hwidth).finite,
    isInf_of_isFinite (value_bodyHeight hheight).1⟩

/-- The center of a dot lies well inside of the window. -/
theorem dot_placed (hf : f.Bounded) (hdots : g.dots.instances.length < UInt64.size)
    (hwidth : Lies 480 10000 window.x) (hheight : Lies 320 10000 window.y) {placement : Placement}
    (hplacement : placement ∈ (g.placeRing f (areas window).ring).dotPath.placements)
    (axis : Axis) : Lies 71 (value (window.along axis) - 15) (placement.center.along axis) := by
  choose o e hspans ho he hsum using ring_spans hwidth hheight
  have hlimit (axis : Axis) : o axis + e axis ≤ 10000 := by
    rw [hsum]
    cases axis with
    | horizontal => exact (sub_le_self _ (by norm_num)).trans hwidth.le_high
    | vertical => exact (sub_le_self _ (by norm_num)).trans hheight.le_high
  have hradius (axis : Axis) : Lies 0 (e axis / 2 + 3 / 2 ^ 10)
      (ringRadius (areas window).ring.size) := by
    refine (ringRadius_lies (fun axis => (hspans axis).extent) (fun axis => ?_) (fun axis => ?_)
      axis).mono le_rfl (by linarith)
    · linarith [he axis]
    · linarith [ho axis, hlimit axis]
  have hpoints : ∀ point ∈ (g.placeRing f (areas window).ring).dotPath.points, ∀ axis,
      Lies (o axis - 10 / 2 ^ 10) (o axis + e axis + 10 / 2 ^ 10) (point.along axis) := by
    intro point hpoint axis
    obtain ⟨relative, hrelative, rfl⟩ := List.mem_map.mp hpoint
    obtain ⟨index, hindex, rfl⟩ := List.mem_map.mp hrelative
    obtain ⟨⟨hcos, hcos'⟩, hsin, hsin'⟩ := hf index (List.mem_range.mp hindex)
    have hcoordinate {c : Float32} (hlow : -1 ≤ c) (hhigh : c ≤ 1) :=
      lies_coordinate (hspans axis) (hradius axis) hlow hhigh (by linarith [ho axis])
        (by linarith [he axis]) (hlimit axis)
    cases axis with
    | horizontal => exact hcoordinate hcos hcos'
    | vertical => exact hcoordinate hsin hsin'
  have hcount : (g.placeRing f (areas window).ring).dotPath.items.length ≤ 2 ^ 64 :=
    (List.length_map ..).trans_le hdots.le
  have hcenter := (ringPath_checked hf (not_overflows_of_lies hwidth hheight)).lies_center rfl rfl
    hcount hpoints (fun axis => by linarith [ho axis]) (fun axis => by linarith [hlimit axis])
    hplacement axis
  exact hcenter.mono (by linarith [ho axis]) (by linarith [hsum axis])

end Gallery

end RetainedScene
