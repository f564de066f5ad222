import RetainedScene.Proofs.Number.Intervals
import RetainedScene.Proofs.Path.Closing
import RetainedScene.Proofs.Path.Drift
import RetainedScene.Proofs.Path.Search

/-!
# Items lie between points of their path

Whatever part of a segment an item is placed at, none of its coordinates gets out of the range of the
path's points, but for rounding. Up to 2⁴⁰ the path does not overflow on the way.
-/

set_option autoImplicit false

namespace RetainedScene

open Binary32 Scalar

/-- Up to 2ᵏ on both axes. -/
def Vec2.Moderate (k : Nat) (a : Vec2) : Prop :=
  ∀ axis, (a.along axis).isFinite = true ∧ |value (a.along axis)| ≤ 2 ^ k

namespace Vec2

variable {a b : Vec2} {k : Nat}

theorem Moderate.isFinite (h : a.Moderate k) : a.isFinite = true :=
  isFinite_iff_along.mpr fun axis => (h axis).1

theorem square_within (ha : a.Moderate k) (hb : b.Moderate k) (hk : k ≤ 40) (axis : Axis) :
    Within ((2 ^ (k + 1)) ^ 2)
      ((b.along axis - a.along axis) * (b.along axis - a.along axis)) := by
  obtain ⟨hx, hx'⟩ := ha axis
  obtain ⟨hy, hy'⟩ := hb axis
  have hdifference : |value (b.along axis) - value (a.along axis)| ≤ 2 ^ (k + 1) := by
    have htriangle := abs_sub (value (b.along axis)) (value (a.along axis))
    rw [pow_succ]
    linarith
  obtain ⟨hfinite, hlimit⟩ := (RoundsTo.sub hy hx).abs_value_le
    (representable_two_pow (by omega)) hdifference
  have hround := RoundsTo.mul hfinite hfinite
  have hsquare : Representable ((2 ^ (k + 1)) ^ 2) := by
    rw [← pow_mul]
    exact representable_two_pow (by omega)
  refine ⟨hround.atLeast representable_zero (mul_self_nonneg _), hround.atMost hsquare ?_⟩
  rw [← pow_two]
  exact sq_le_sq' (by linarith [(abs_le.mp hlimit).1]) (abs_le.mp hlimit).2

theorem distance_within (ha : a.Moderate k) (hb : b.Moderate k) (hk : k ≤ 40) :
    Within (2 ^ (k + 3)) (a.distance b) := by
  have hsum : Representable ((2 ^ (k + 2)) ^ 2) := by
    rw [← pow_mul]
    exact representable_two_pow (by omega)
  have hdot := (square_within ha hb hk .horizontal).add (square_within ha hb hk .vertical) hsum (by
    have hpos : (0 : ℚ) < (2 ^ (k + 1)) ^ 2 := by positivity
    have hdouble : ((2 : ℚ) ^ (k + 2)) ^ 2 = 4 * (2 ^ (k + 1)) ^ 2 := by ring
    linarith)
  have hroot : Representable (2 * 2 ^ (k + 2)) := by
    rw [← pow_succ']
    exact representable_two_pow (by omega)
  rw [show (2 : ℚ) ^ (k + 3) = 2 * 2 ^ (k + 2) from pow_succ' 2 (k + 2)]
  exact (dot_self_magnitude ha.isFinite hb.isFinite).sqrt_within hdot.atMost (by positivity) hroot

/-- A coordinate at a part of the way between two points. -/
theorem lies_lerp {low high : ℚ} {axis : Axis} {t : Float32} (ha : Lies low high (a.along axis))
    (hb : Lies low high (b.along axis)) (ht : Within 1 t) (hlow : 0 ≤ low)
    (hhigh : high + 1 ≤ 2 ^ 14) :
    Lies (low - 1 / 2 ^ 8) (high + 1 / 2 ^ 8) ((a.lerp b t).along axis) := by
  have hle := ha.low_le.trans ha.le_high
  obtain ⟨hdifference, hdifferenceError⟩ := (RoundsTo.sub hb.finite ha.finite).error_le
    (representable_two_pow (k := 14) (by norm_num))
    (abs_le.mpr ⟨by linarith [ha.le_high, hb.low_le], by linarith [ha.low_le, hb.le_high]⟩)
    (by norm_num)
  have hunit : (2 : ℚ) ^ 14 / 2 ^ 24 = 1 / 2 ^ 10 := by norm_num
  rw [hunit] at hdifferenceError
  obtain ⟨herror, herror'⟩ := abs_le.mp hdifferenceError
  -- Between the two numbers there is the exact point, and the part is off by as much as the whole.
  have hpart := RoundsTo.mul hdifference ht.isFinite
  have hexact : ∃ s, low ≤ value (a.along axis) + s ∧ value (a.along axis) + s ≤ high ∧
      |value (b.along axis - a.along axis) * value t - s| ≤ 1 / 2 ^ 10 := by
    refine ⟨(value (b.along axis) - value (a.along axis)) * value t, ?_, ?_, ?_⟩
    · nlinarith [ht.value_nonneg, ht.value_le, ha.low_le, hb.low_le]
    · nlinarith [ht.value_nonneg, ht.value_le, ha.le_high, hb.le_high]
    · rw [← sub_mul]
      exact (ht.abs_mul_le _).trans hdifferenceError
  obtain ⟨s, hslow, hshigh, hs⟩ := hexact
  obtain ⟨hs, hs'⟩ := abs_le.mp hs
  have hmoved := Lies.of_round hpart (a := s - 1 / 2 ^ 10) (b := s + 1 / 2 ^ 10) (by linarith)
    (by linarith) (by linarith [ha.le_high]) (by linarith [ha.low_le])
  have hsum := (Lies.of_value ha.finite rfl).add hmoved (by linarith) (by linarith)
  rw [along_lerp]
  exact hsum.mono (by linarith) (by linarith)

end Vec2

namespace PathLayout

variable {p : PathLayout} {fraction : Float32} {k : Nat}

theorem totalLength_within (h : ∀ point ∈ p.points, point.Moderate k) (hk : k ≤ 40) :
    Within (2 ^ (k + 3 + 24)) p.totalLength := by
  refine Within.total (by omega) fun x hx => ?_
  obtain ⟨segment, hsegment, rfl⟩ := List.mem_map.mp hx
  obtain ⟨hstart, hstop⟩ := Segment.mem_chain hsegment
  exact Vec2.distance_within (h _ hstart) (h _ hstop) hk

theorem evenFractions_within (hcount : p.items.length ≤ 2 ^ 64) :
    ∀ fraction ∈ p.evenFractions, Within 1 fraction := by
  have hshare {i n : Nat} (hi : i ≤ n) (hn : 0 < n) (hn' : n ≤ 2 ^ 64) :
      Within 1 (Float32.ofNat i / Float32.ofNat n) :=
    share_within_one (ofNat_nonneg i) (ofNat_mono hi) (isFinite_ofNat hn') (ofNat_pos hn)
  intro fraction hfraction
  obtain ⟨index, hindex, rfl⟩ := List.mem_map.mp hfraction
  rw [List.mem_range] at hindex
  unfold evenFraction
  split_ifs
  · exact .zero one_pos.le
  · exact hshare hindex.le (by omega) hcount
  · exact hshare (by omega) (by omega) (by omega)

/-- An item is at a part of the way from one point of its path to another, or at one of them. -/
theorem Checked.center_between (h : p.Checked) (hfinite : p.totalLength.isFinite = true)
    (hreached : ∀ fraction ∈ p.fractions, (p.reached fraction).isFinite = true)
    {placement : Placement} (hplacement : placement ∈ p.placements) :
    placement.center ∈ p.points ∨ ∃ a ∈ p.points, ∃ b ∈ p.points, ∃ t, Within 1 t ∧
      placement.center = a.lerp b t := by
  rw [placements] at hplacement
  split at hplacement
  case isTrue =>
    obtain ⟨_, -, rfl⟩ := List.mem_map.mp hplacement
    obtain ⟨first, rest, hpoints⟩ := List.exists_cons_of_ne_nil h.points_nonempty
    left
    change p.points.headD .zero ∈ p.points
    rw [hpoints]
    exact List.mem_cons_self
  case isFalse hlength =>
    obtain ⟨fraction, hfraction, rfl⟩ := List.mem_map.mp hplacement
    have hpos := lt_of_not_le h.totalLength_magnitude.isNaN rfl hlength
    have hnumber := hreached fraction hfraction
    obtain ⟨hlow, hhigh⟩ := arc_between hfinite hpos (isNaN_of_isFinite hnumber) fun _ => hnumber
    obtain ⟨index, segment, hfirst, hfind⟩ := h.find_on hpos hhigh
    have hmem := List.mem_of_getElem? hfirst.entry
    obtain ⟨hstart, hstop⟩ := Segment.mem_chain hmem
    obtain ⟨hnonneg, hone⟩ := clamp_between (h.part_isNaN hfinite hlow hhigh hmem hfirst.positive
      index) (show (0 : Float32) ≤ 1 by decide)
    have hmost : AtMost 1 1 := .inr ⟨rfl, value_one.le⟩
    refine .inr ⟨_, hstart, _, hstop, _, ⟨atLeast_zero_iff.mpr hnonneg, hmost.of_le hone⟩, ?_⟩
    rw [spot, hfind]
    rfl

/-- Items that are spread evenly over all of a path without an offset. -/
theorem Checked.lies_center (h : p.Checked) (heven : p.spacing = .even)
    (hoffset : p.offset = 0) (hcount : p.items.length ≤ 2 ^ 64) {low high : Axis → ℚ}
    (hpoints : ∀ point ∈ p.points, ∀ axis, Lies (low axis) (high axis) (point.along axis))
    (hlow : ∀ axis, 0 ≤ low axis) (hhigh : ∀ axis, high axis + 1 ≤ 2 ^ 14) {placement : Placement}
    (hplacement : placement ∈ p.placements) (axis : Axis) :
    Lies (low axis - 1 / 2 ^ 8) (high axis + 1 / 2 ^ 8) (placement.center.along axis) := by
  have hmoderate : ∀ point ∈ p.points, point.Moderate 14 := by
    intro point hpoint axis
    have hlies := hpoints point hpoint axis
    refine ⟨hlies.finite, abs_le.mpr ⟨?_, ?_⟩⟩
    · linarith [hlow axis, hlies.low_le]
    · linarith [hhigh axis, hlies.le_high]
  have hfinite := (totalLength_within hmoderate (by norm_num)).isFinite
  have hreached : ∀ fraction ∈ p.fractions, (p.reached fraction).isFinite = true := by
    intro fraction hfraction
    rw [fractions, heven] at hfraction
    have hproduct := (evenFractions_within hcount fraction hfraction).mul (h.usable_within hfinite)
      (value_representable p.totalLength) (one_mul _).le
    have hround := RoundsTo.add hproduct.isFinite (y := 0) rfl
    rw [value_zero, add_zero] at hround
    rw [reached, hoffset]
    exact (hround.exact (value_representable _)).1
  rcases h.center_between hfinite hreached hplacement with hpoint | ⟨a, ha, b, hb, t, ht, hcenter⟩
  · exact (hpoints _ hpoint axis).mono (by norm_num) (by norm_num)
  · rw [hcenter]
    exact Vec2.lies_lerp (hpoints a ha axis) (hpoints b hb axis) ht (hlow axis) (hhigh axis)

end PathLayout

end RetainedScene
