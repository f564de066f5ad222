import RetainedScene.Proofs.Path.Closing
import RetainedScene.Proofs.Path.Drift
import RetainedScene.Proofs.Path.Fractions
import RetainedScene.Proofs.Path.Search

/-!
# The ends of an open path

The first of several items is at the first point and the last one at the last point, as far as
rounding goes. A segment that is too short for the length of the path to grow is lost, and the last
item stays before it, but it is shorter than a part of the length.
-/

set_option autoImplicit false

namespace RetainedScene

open Binary32 Scalar

namespace Vec2

/-- Finite, and in each coordinate no further from `b` than the tolerance. -/
def Near (tolerance : Axis → ℚ) (a b : Vec2) : Prop :=
  a.isFinite = true ∧ ∀ axis, |value (a.along axis) - value (b.along axis)| ≤ tolerance axis

theorem Near.mono {tolerance tolerance' : Axis → ℚ} {a b : Vec2} (h : Near tolerance a b)
    (hle : ∀ axis, tolerance axis ≤ tolerance' axis) : Near tolerance' a b :=
  ⟨h.1, fun axis => (h.2 axis).trans (hle axis)⟩

end Vec2

namespace PathLayout

variable {p : PathLayout} {solution : Solution} {arc fraction : Float32} {first last : Vec2}

/-- What rounding may take the last item away from the last point. It grows with the length of the
    path, of which each point may be a segment that is lost, and with the point itself. -/
def endError (p : PathLayout) (last : Vec2) (axis : Axis) : ℚ :=
  6 / 10 ^ 8 * ((p.points.length + 4) * value p.totalLength + |value (last.along axis)|) +
    1 / 2 ^ 35

/-- The error at the stop of a segment and the way from there to the last point. -/
theorem le_endError {center stop : ℚ} {axis : Axis} (htotal : 0 ≤ value p.totalLength)
    (hcenter : (2 ^ 24 - 1) * |center - stop| ≤
      |stop| + 6 * (1 + 1 / 2 ^ 22) * value p.totalLength + 1 / 2 ^ 38)
    (hstop : |value (last.along axis) - stop| ≤
      (p.points.length - 2) * ((1 + 1 / 2 ^ 21) * (value p.totalLength / 2 ^ 24)) +
        2 * nextToZero) :
    |center - value (last.along axis)| ≤ p.endError last axis := by
  have htriangle := abs_sub_le center stop (value (last.along axis))
  have hmagnitude := abs_sub_abs_le_abs_sub stop (value (last.along axis))
  rw [abs_sub_comm stop] at htriangle hmagnitude
  have hlast := abs_nonneg (value (last.along axis))
  have hpoints : 0 ≤ (p.points.length : ℚ) * value p.totalLength := by positivity
  unfold nextToZero at hstop
  unfold endError
  linarith

theorem segments_open (hopen : p.closed = false) : p.segments = Segment.between p.points := by
  rw [segments, Segment.chain, hopen]
  rfl

namespace Checked

variable (h : p.Checked) (hfinite : p.totalLength.isFinite = true)

include h hfinite

theorem length_within {segment : Segment} (hmem : segment ∈ p.segments) :
    Within (value p.totalLength) segment.length :=
  ⟨(h.segments_bounded segment hmem).length_magnitude.nonneg,
    (atMost_value hfinite).of_le (h.length_le hmem)⟩

theorem reach_within (count : Nat) :
    Within (value p.totalLength) (Segment.reach 0 p.segments count) :=
  ⟨(h.reach_le count).1.nonneg, (atMost_value hfinite).of_le (h.reach_le count).2⟩

/-- After the segment that reaches the end there are only segments that the length of the path does
    not grow by. -/
theorem lost_length {j k : Nat} {segment : Segment}
    (hreach : value (Segment.reach 0 p.segments k) = value p.totalLength) (hj : k ≤ j)
    (hentry : p.segments[j]? = some segment) :
    value segment.length ≤ value p.totalLength / 2 ^ 24 := by
  have hbefore := h.reach_within hfinite j
  have hafter := h.reach_within hfinite (j + 1)
  have hmono {m : Nat} (hm : k ≤ m) (hwithin : Within (value p.totalLength)
      (Segment.reach 0 p.segments m)) :
      value (Segment.reach 0 p.segments m) = value p.totalLength := by
    refine le_antisymm hwithin.value_le (hreach ▸ ?_)
    exact (value_le_iff (h.reach_within hfinite k).isFinite hwithin.isFinite).mpr
      (Segment.reach_mono h.segments_bounded atLeast_zero hm)
  have hlength := h.length_within hfinite (List.mem_of_getElem? hentry)
  have hsum := Segment.reach_succ 0 hentry
  have herror := error_add hbefore.isFinite hlength.isFinite (hsum ▸ hafter.isFinite)
  rw [← hsum, hmono hj hbefore, hmono (by omega) hafter, sub_add_cancel_left, abs_neg,
    abs_of_nonneg hlength.value_nonneg,
    abs_of_nonneg (hlength.value_nonneg.trans hlength.value_le)] at herror
  rw [le_div_iff₀ (by positivity)]
  linarith

/-- Before the segment that reaches no distance there are only segments without length. -/
theorem before_start {k : Nat} {segment : Segment} (harc : arc.isFinite = true)
    (hzero : value arc = 0) (hreach : Segment.FirstReaching 0 p.segments arc k segment) {j : Nat}
    {earlier : Segment} (hj : j < k) (hentry : p.segments[j]? = some earlier) :
    earlier.length ≤ 0 := by
  have hnumber := (h.length_within hfinite (List.mem_of_getElem? hentry)).nonneg.isNaN
  have hnext := h.reach_within hfinite (j + 1)
  refine le_of_not_lt rfl hnumber fun hlong => hreach.first j earlier hj hentry hlong ?_
  exact (value_le_iff harc hnext.isFinite).mp (hzero.trans_le hnext.value_nonneg)

variable (hopen : p.closed = false)

include hopen

theorem start_drift {k : Nat} {start : Vec2} (hnone : ∀ j segment, j < k →
      p.segments[j]? = some segment → segment.length ≤ 0)
    (hfirst : p.points[0]? = some first) (hstart : p.points[k]? = some start) (axis : Axis) :
    |value (start.along axis) - value (first.along axis)| ≤ 2 * nextToZero := by
  have hshort : ∀ j segment, 0 ≤ j → j < 0 + k → (Segment.between p.points)[j]? = some segment →
      segment.length.isFinite = true ∧ value segment.length ≤ 0 := by
    intro j segment _ hj hentry
    rw [← segments_open hopen] at hentry
    have hlength := (h.length_within hfinite (List.mem_of_getElem? hentry)).isFinite
    exact ⟨hlength, (value_le_iff hlength rfl).mpr (hnone j segment (by omega) hentry)⟩
  have hdrift := Segment.drifts_between h.points_finite le_rfl hshort hfirst
    (by rwa [Nat.zero_add]) axis
  simpa using hdrift.abs_sub_le

/-- No more segments are lost than there are points besides the ends of the last one that is not. -/
theorem stop_drift {k : Nat} {stop : Vec2}
    (hreach : value (Segment.reach 0 p.segments (k + 1)) = value p.totalLength)
    (hstop : p.points[k + 1]? = some stop) (hlast : p.points[p.points.length - 1]? = some last)
    (axis : Axis) : |value (last.along axis) - value (stop.along axis)| ≤
      (p.points.length - 2) * ((1 + 1 / 2 ^ 21) * (value p.totalLength / 2 ^ 24)) +
        2 * nextToZero := by
  have htotal : 0 ≤ value p.totalLength := hreach ▸ (h.reach_within hfinite _).value_nonneg
  obtain ⟨hlt, -⟩ := List.getElem?_eq_some_iff.mp hstop
  obtain ⟨count, hcount⟩ : ∃ count, p.points.length - 1 = k + 1 + count :=
    ⟨p.points.length - 1 - (k + 1), by omega⟩
  have hshort : ∀ j segment, k + 1 ≤ j → j < k + 1 + count →
      (Segment.between p.points)[j]? = some segment →
      segment.length.isFinite = true ∧ value segment.length ≤ value p.totalLength / 2 ^ 24 := by
    intro j segment hj _ hentry
    rw [← segments_open hopen] at hentry
    exact ⟨(h.length_within hfinite (List.mem_of_getElem? hentry)).isFinite,
      h.lost_length hfinite hreach hj hentry⟩
  have hdrift := Segment.drifts_between h.points_finite (by positivity) hshort hstop
    (hcount ▸ hlast) axis
  refine hdrift.abs_sub_le.trans ?_
  have hfew : count + 2 ≤ p.points.length := by omega
  have hfew' : (count : ℚ) + 2 ≤ p.points.length := by exact_mod_cast hfew
  gcongr
  linarith

variable (hpos : 0 < p.totalLength) (harc : arc.isFinite = true)

include hpos harc

theorem first_center (hzero : value arc = 0) (hfirst : p.points[0]? = some first) :
    ((Spot.find arc 0 0 none p.segments).placement p.start).center.Near
      (fun _ => 2 * nextToZero) first := by
  have htotal := (value_pos_iff hfinite).mpr hpos
  obtain ⟨k, segment, hreach, hfind⟩ :=
    h.find_on hpos ((value_le_iff harc hfinite).mp (hzero.trans_le htotal.le))
  have hmem := List.mem_of_getElem? hreach.entry
  have hlength := h.length_within hfinite hmem
  have hbounded := h.segments_bounded segment hmem
  have hnone : ∀ j earlier, j < k → p.segments[j]? = some earlier → earlier.length ≤ 0 :=
    fun j earlier hj hentry => h.before_start hfinite harc hzero hreach hj hentry
  have hwalked : value (Segment.reach 0 p.segments k) = 0 := by
    rw [Segment.reach_eq_self h.segments_bounded .zero hnone, value_zero]
  obtain ⟨ht, htzero⟩ := part_of_start harc (h.reach_within hfinite k).isFinite hlength.isFinite
    hzero hwalked ((value_pos_iff hlength.isFinite).mpr hreach.positive)
  have hcenter (axis : Axis) := interpolate_start (hbounded.run_isFinite hlength.isFinite axis)
    (Vec2.isFinite_iff_along.mp hbounded.1 axis) ht (by rw [htzero, mul_zero])
  have hentry := hreach.entry
  rw [segments_open hopen, Segment.getElem?_between] at hentry
  rw [hfind, Spot.placement]
  refine ⟨Vec2.isFinite_iff_along.mpr fun axis => ?_, fun axis => ?_⟩
  · rw [Vec2.along_lerp]
    exact (hcenter axis).1
  · rw [Vec2.along_lerp, (hcenter axis).2]
    exact h.start_drift hfinite hopen hnone hfirst hentry.1 axis

/-- What is left of the segment that reaches the end, and what is lost after it. -/
theorem last_center (hvalue : value arc = value p.totalLength)
    (hlast : p.points[p.points.length - 1]? = some last) :
    ((Spot.find arc 0 0 none p.segments).placement p.start).center.Near
      (p.endError last) last := by
  have htotal := (value_pos_iff hfinite).mpr hpos
  obtain ⟨k, segment, hreach, hfind⟩ :=
    h.find_on hpos ((value_le_iff harc hfinite).mp hvalue.le)
  have hmem := List.mem_of_getElem? hreach.entry
  have hlength := h.length_within hfinite hmem
  have hbounded := h.segments_bounded segment hmem
  have hwalked := h.reach_within hfinite k
  have hend := h.reach_within hfinite (k + 1)
  have hsum := Segment.reach_succ 0 hreach.entry
  have hreached : value (Segment.reach 0 p.segments (k + 1)) = value p.totalLength :=
    le_antisymm hend.value_le
      (hvalue ▸ (value_le_iff harc hend.isFinite).mpr hreach.reaches)
  obtain ⟨ht, hleft⟩ := left_of_sum harc hwalked.isFinite hlength.isFinite
    (hsum ▸ hend.isFinite) (by rw [← hsum, hreached, hvalue]) hwalked.value_nonneg
    ((value_pos_iff hlength.isFinite).mpr hreach.positive)
  rw [hvalue] at hleft
  have hcenter (axis : Axis) :=
    hbounded.stop_error hlength.isFinite ht hlength.value_le hleft axis
  have hentry := hreach.entry
  rw [segments_open hopen, Segment.getElem?_between] at hentry
  rw [hfind, Spot.placement]
  exact ⟨Vec2.isFinite_iff_along.mpr fun axis => (hcenter axis).1, fun axis =>
    le_endError htotal.le (hcenter axis).2
      (h.stop_drift hfinite hopen hreached hentry.2 hlast axis)⟩

end Checked

/-- A distance that is all of the path or none of it is not rounded, and neither wrapped nor held. -/
theorem arc_exact (hopen : p.closed = false) (hfinite : p.totalLength.isFinite = true)
    (hpos : 0 < p.totalLength) (hlength : p.length = none) (hoffset : (p.offset == 0) = true)
    (hfraction : Within 1 fraction) (hexact : Representable (value fraction * value p.totalLength)) :
    (p.arc fraction).isFinite = true ∧
      value (p.arc fraction) = value fraction * value p.totalLength := by
  obtain ⟨hzero, hvalue⟩ := finite_of_beq_zero hoffset
  have htotal := (value_pos_iff hfinite).mpr hpos
  have husable : p.usable = p.totalLength := by
    rw [usable, hlength]
  obtain ⟨hproduct, hproductValue⟩ := (RoundsTo.mul hfraction.isFinite hfinite).exact hexact
  have hsum := RoundsTo.add hproduct hzero
  rw [hproductValue, hvalue, add_zero] at hsum
  obtain ⟨hreached, hreachedValue⟩ := hsum.exact hexact
  have hlow : 0 ≤ fraction * p.totalLength + p.offset := by
    rw [← value_le_iff rfl hreached, hreachedValue, value_zero]
    exact mul_nonneg hfraction.value_nonneg htotal.le
  have hhigh : fraction * p.totalLength + p.offset ≤ p.totalLength := by
    rw [← value_le_iff hreached hfinite, hreachedValue]
    exact mul_le_of_le_one_left htotal.le hfraction.value_le
  rw [PathLayout.arc, hopen, if_neg Bool.false_ne_true, reached, husable, clamp_eq_self hlow hhigh]
  exact ⟨hreached, hreachedValue⟩

/-- Several items are from zero to one, exactly. -/
theorem evenFractions_ends (hopen : p.closed = false) (hmany : 1 < p.items.length)
    (hcount : p.items.length < 2 ^ 64) : ∃ zero one : Float32,
      p.evenFractions[0]? = some zero ∧ p.evenFractions[p.items.length - 1]? = some one ∧
      (Within 1 zero ∧ value zero = 0) ∧ Within 1 one ∧ value one = 1 := by
  have hparts : (Float32.ofNat (p.items.length - 1)).isFinite = true := isFinite_ofNat (by omega)
  have hpos : 0 < Float32.ofNat (p.items.length - 1) := ofNat_pos (by omega)
  have hpos' := (value_pos_iff hparts).mpr hpos
  have hzero := RoundsTo.div (x := 0) rfl hparts hpos'.ne'
  have hone := RoundsTo.div hparts hparts hpos'.ne'
  rw [value_zero, zero_div] at hzero
  rw [div_self hpos'.ne'] at hone
  refine ⟨Float32.ofNat 0 / Float32.ofNat (p.items.length - 1),
    Float32.ofNat (p.items.length - 1) / Float32.ofNat (p.items.length - 1), ?_, ?_,
    ⟨share_within_one (ofNat_nonneg 0) (ofNat_mono (Nat.zero_le _)) hparts hpos,
      (hzero.exact representable_zero).2⟩,
    share_within_one (ofNat_nonneg _) (le_refl (isNaN_of_isFinite hparts)) hparts hpos,
    (hone.exact representable_one).2⟩
  all_goals
    rw [evenFractions, evenFraction_eq (by omega), gapCount_open hopen, List.getElem?_map,
      List.getElem?_range (by omega)]
    rfl

/-- An open path is used from one end to the other, and where it is not too long for its points no
    rounding is seen. The number of items is one that a word can count. -/
theorem solve_reachesEnds (h : p.solve = .ok solution) (hopen : p.closed = false)
    (heven : p.spacing = .even) (hoffset : (p.offset == 0) = true) (hlength : p.length = none)
    (hfinite : p.totalLength.isFinite = true) (hpos : 0 < p.totalLength)
    (hmany : 1 < p.items.length) (hcount : p.items.length < 2 ^ 64) :
    ∃ first last placement placement',
      p.points.head? = some first ∧ p.points.getLast? = some last ∧
      solution.placements.head? = some placement ∧
      solution.placements.getLast? = some placement' ∧
      placement.center.Near (fun _ => 1 / 1000) first ∧
      placement'.center.Near (p.endError last) last ∧
      ((∀ axis, (p.points.length + 4) * value p.totalLength + |value (last.along axis)| ≤ 16666) →
        placement'.center.Near (fun _ => 1 / 1000) last) := by
  obtain ⟨hchecked, hplacements⟩ := of_solve h
  obtain ⟨zero, one, hzeroth, hlast, ⟨hzero, hzeroValue⟩, hone, honeValue⟩ :=
    evenFractions_ends hopen hmany hcount
  rw [← fractions_of_spreadEvenly (.inl heven)] at hzeroth hlast
  obtain ⟨harc, harcValue⟩ := arc_exact hopen hfinite hpos hlength hoffset hzero
    (by rw [hzeroValue, zero_mul]; exact representable_zero)
  obtain ⟨harc', harcValue'⟩ := arc_exact hopen hfinite hpos hlength hoffset hone
    (by rw [honeValue, one_mul]; exact value_representable _)
  rw [hzeroValue, zero_mul] at harcValue
  rw [honeValue, one_mul] at harcValue'
  obtain ⟨first, rest, hpoints⟩ := List.exists_cons_of_ne_nil hchecked.points_nonempty
  have hend : p.points.getLast? = some (p.points.getLast hchecked.points_nonempty) :=
    List.getLast?_eq_some_getLast _
  have hnear := hchecked.last_center hfinite hopen hpos harc' harcValue'
    (List.getLast?_eq_getElem? ▸ hend)
  refine ⟨first, _, _, _, by rw [hpoints]; rfl, hend, ?_, ?_,
    (hchecked.first_center hfinite hopen hpos harc harcValue (by rw [hpoints]; rfl)).mono
      fun axis => by norm_num [nextToZero], hnear, fun hmoderate => hnear.mono fun axis => ?_⟩
  · rw [hplacements, List.head?_eq_getElem?]
    exact getElem?_placements hpos hzeroth
  · rw [hplacements, List.getLast?_eq_getElem?, length_placements]
    exact getElem?_placements hpos hlast
  · have := hmoderate axis
    unfold endError
    linarith

/-- Two sides of a right angle with a corner that is there twice. -/
def angle : PathLayout where
  points := [⟨0.5, 0⟩, ⟨3, 0⟩, ⟨3, 0⟩, ⟨3, 8⟩]
  items := [⟨1, 1⟩, ⟨2, 1⟩, ⟨3, 1⟩]
  spacing := .even
  length := none
  offset := -0
  closed := false

theorem angle_reachesEnds : ∃ solution first last placement placement',
    angle.solve = .ok solution ∧ angle.closed = false ∧ angle.spacing = .even ∧
    (angle.offset == 0) = true ∧ angle.length = none ∧ angle.totalLength.isFinite = true ∧
    0 < angle.totalLength ∧ 1 < angle.items.length ∧ angle.items.length < 2 ^ 64 ∧
    angle.points.head? = some first ∧ angle.points.getLast? = some last ∧
    solution.placements.head? = some placement ∧ solution.placements.getLast? = some placement' ∧
    placement.center.Near (fun _ => 1 / 1000) first ∧
    placement'.center.Near (fun _ => 1 / 1000) last := by
  have hoffset : (angle.offset == 0) = true := by decide
  have hfinite : angle.totalLength.isFinite = true := by decide +kernel
  have hpos : 0 < angle.totalLength := by decide +kernel
  have hmany : 1 < angle.items.length := by decide
  have hcount : angle.items.length < 2 ^ 64 := by decide
  obtain ⟨_, hsolve⟩ := (problem?_eq_none_iff.mp (by decide : angle.problem? = none)).solve_eq
  obtain ⟨first, last, placement, placement', hfirst, hlast, hplacement, hplacement', hnear, -,
    hmoderate⟩ := solve_reachesEnds hsolve rfl rfl hoffset rfl hfinite hpos hmany hcount
  refine ⟨_, first, last, placement, placement', hsolve, rfl, rfl, hoffset, rfl, hfinite, hpos,
    hmany, hcount, hfirst, hlast, hplacement, hplacement', hnear, hmoderate fun axis => ?_⟩
  have hvalue (n : Nat) (hn : n ≤ 2 ^ 24) : value (Float32.ofNat n) = n :=
    ((RoundsTo.ofNat n).exact (representable_nat hn)).2
  have htotal : value angle.totalLength ≤ 11 := by
    have hle : angle.totalLength ≤ Float32.ofNat 11 := by decide +kernel
    have := (value_le_iff hfinite (by decide)).mpr hle
    rwa [hvalue 11 (by norm_num)] at this
  have hcoordinate : |value (last.along axis)| ≤ 8 := by
    obtain rfl : ⟨3, 8⟩ = last := Option.some.inj hlast
    cases axis
    · rw [show value (Vec2.along ⟨3, 8⟩ .horizontal) = 3 from hvalue 3 (by norm_num)]
      norm_num
    · rw [show value (Vec2.along ⟨3, 8⟩ .vertical) = 8 from hvalue 8 (by norm_num)]
      norm_num
  have hpoints : (angle.points.length : ℚ) = 4 := by norm_num [angle]
  rw [hpoints]
  linarith

/-- A long way and a short one at the end of it, which the length does not grow by. -/
def cliff : PathLayout where
  points := [⟨0, 0⟩, ⟨16777216, 0⟩, ⟨16777216, 1⟩]
  items := [⟨10, 10⟩, ⟨10, 10⟩]
  spacing := .even
  length := none
  offset := 0
  closed := false

theorem cliff_falls_short : ∃ solution placement, cliff.solve = .ok solution ∧
    cliff.closed = false ∧ cliff.spacing = .even ∧ cliff.offset = 0 ∧ cliff.length = none ∧
    cliff.totalLength.isFinite = true ∧ 0 < cliff.totalLength ∧ cliff.items.length = 2 ∧
    cliff.points.getLast? = some ⟨16777216, 1⟩ ∧
    solution.placements.getLast? = some placement ∧ placement.center = ⟨16777216, 0⟩ ∧
    ¬ placement.center.Near (fun _ => 1 / 1000) ⟨16777216, 1⟩ := by
  have hfinite : cliff.totalLength.isFinite = true := by decide +kernel
  have hpos : 0 < cliff.totalLength := by decide +kernel
  have hlast : cliff.fractions[1]? = some 1 := by decide +kernel
  have hcenter : ((cliff.spot 1).placement cliff.start).center = ⟨16777216, 0⟩ := by
    decide +kernel
  obtain ⟨_, hsolve⟩ := (problem?_eq_none_iff.mp (by decide : cliff.problem? = none)).solve_eq
  refine ⟨_, _, hsolve, rfl, rfl, rfl, rfl, hfinite, hpos, rfl, rfl, ?_, hcenter, ?_⟩
  · rw [List.getLast?_eq_getElem?, length_placements]
    exact getElem?_placements hpos hlast
  · rw [hcenter]
    intro hnear
    have hvertical := hnear.2 .vertical
    rw [show value (Vec2.along ⟨16777216, 0⟩ .vertical) = 0 from value_zero,
      show value (Vec2.along ⟨16777216, 1⟩ .vertical) = 1 from value_one] at hvertical
    norm_num at hvertical

end PathLayout

end RetainedScene
