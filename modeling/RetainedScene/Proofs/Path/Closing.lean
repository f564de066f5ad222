import RetainedScene.Proofs.Number.Remainder
import RetainedScene.Proofs.Number.Shares
import RetainedScene.Proofs.Path.Skipping

/-!
# Closed paths as open ones

A closed path is the open path that goes on to its first point again, with an item more that is put
there. On the closed path distances are wrapped and on the open one they are held, but the distance
of an evenly spaced item is less than the length of the path, and both leave it as it is.
-/

set_option autoImplicit false

namespace RetainedScene.PathLayout

open Binary32 Scalar

variable {p : PathLayout} {solution : Solution} {extra : Vec2} {fraction : Float32}

/-- The open path to the first point again, with one more item. -/
def opened (p : PathLayout) (extra : Vec2) : PathLayout :=
  { p with closed := false, points := p.points ++ p.points.take 1, items := p.items ++ [extra] }

theorem Checked.opened (h : p.Checked) (hextra : goodItem extra = true) :
    (p.opened extra).Checked where
  points_finite point hpoint :=
    h.points_finite point ((List.mem_append.mp hpoint).elim id List.mem_of_mem_take)
  length_good := h.length_good
  offset_finite := h.offset_finite
  items_good size hsize := by
    rcases List.mem_append.mp hsize with hsize | hsize
    · exact h.items_good size hsize
    · rw [List.mem_singleton.mp hsize]
      exact goodItem_iff.mp hextra
  points_nonempty := List.append_ne_nil_of_left_ne_nil h.points_nonempty _

theorem start_opened (h : p.points ≠ []) (extra : Vec2) :
    (p.opened extra).start = p.start := by
  obtain ⟨start, rest, hpoints⟩ := List.exists_cons_of_ne_nil h
  rw [PathLayout.start, PathLayout.start, opened, hpoints]
  rfl

theorem sameWalk_opened (h : p.Checked) (hclosed : p.closed = true) (extra : Vec2) :
    SameWalk (p.opened extra) p := by
  rw [SameWalk, segments, segments, hclosed, Segment.filter_chain h.points_finite]
  rfl

theorem evenFraction_closed (count index : Nat) (h : index < count) :
    evenFraction true count index = evenFraction false (count + 1) index := by
  by_cases hone : count = 1
  · obtain rfl : index = 0 := by omega
    rw [hone]
    decide +kernel
  · simp only [evenFraction, if_neg hone, if_neg (show ¬ count + 1 = 1 by omega)]
    rfl

theorem fractions_opened (hclosed : p.closed = true) (heven : p.spacing = .even) (extra : Vec2) :
    p.fractions = (p.opened extra).fractions.take p.items.length := by
  have heven' : (p.opened extra).spacing = .even := heven
  have hcount : (p.opened extra).items.length = p.items.length + 1 := List.length_append
  have hopen : (p.opened extra).closed = false := rfl
  simp only [fractions, heven, heven', evenFractions, hclosed, hopen, hcount]
  rw [← List.map_take, List.take_range, min_eq_left (Nat.le_succ _)]
  exact List.map_congr_left fun index hindex =>
    evenFraction_closed _ index (List.mem_range.mp hindex)

theorem evenFraction_within {count index : Nat} (h : index < count) (hcount : count ≤ 2 ^ 24) :
    Within belowOne (evenFraction true count index) := by
  unfold evenFraction
  split_ifs with hone hopen
  · exact .zero (by norm_num [belowOne])
  · exact share_within h hcount
  · exact absurd rfl hopen

theorem fractions_within (hclosed : p.closed = true) (heven : p.spacing = .even)
    (hcount : p.items.length ≤ 2 ^ 24) (hfraction : fraction ∈ p.fractions) :
    Within belowOne fraction := by
  rw [fractions, heven] at hfraction
  obtain ⟨index, hindex, rfl⟩ := List.mem_map.mp hfraction
  rw [hclosed]
  exact evenFraction_within (List.mem_range.mp hindex) hcount

/-- What may be used of a path is at most all of it. -/
theorem Checked.usable_within (h : p.Checked) (hfinite : p.totalLength.isFinite = true) :
    Within (value p.totalLength) p.usable := by
  have htotal : Within (value p.totalLength) p.totalLength :=
    .self hfinite h.totalLength_magnitude.zero_le
  unfold usable
  split
  case h_1 length hlength =>
    obtain ⟨hlengthFinite, hnonneg⟩ := h.length_good length hlength
    have hnumber : Scalar.isNaN p.totalLength = false := h.totalLength_magnitude.isNaN
    rw [lesser, hnumber, if_neg Bool.false_ne_true]
    split_ifs with hlt
    · exact .of_value hlengthFinite hnonneg ((value_lt_iff hlengthFinite hfinite).mpr hlt).le
    · exact htotal
  case h_2 => exact htotal

theorem Checked.reached_between (h : p.Checked) (hfinite : p.totalLength.isFinite = true)
    (hpos : ¬ p.totalLength ≤ 0) (hoffset : (p.offset == 0) = true)
    (hfraction : Within belowOne fraction) :
    0 ≤ p.reached fraction ∧ p.reached fraction < p.totalLength := by
  have hlarge : 2 ^ (-126 : ℤ) < value p.totalLength :=
    (zpow_lt_zpow_right₀ (by norm_num) (by norm_num)).trans_le
      ((Segment.atLeast_total_lengths h.segments_bounded hpos).le_value hfinite)
  obtain ⟨hnonneg, hlt⟩ :=
    mul_share_between hfraction (h.usable_within hfinite) hfinite hlarge
  exact add_zero_between hoffset hfinite hnonneg hlt

theorem reached_opened (htotal : (p.opened extra).totalLength = p.totalLength) :
    (p.opened extra).reached = p.reached := by
  funext fraction
  simp only [reached, usable, htotal]
  rfl

/-- What is short of the end is neither wrapped nor held. -/
theorem arc_opened (hclosed : p.closed = true) (hfinite : p.totalLength.isFinite = true)
    (hpos : 0 < p.totalLength) (htotal : (p.opened extra).totalLength = p.totalLength)
    (hnonneg : 0 ≤ p.reached fraction) (hlt : p.reached fraction < p.totalLength) :
    (p.opened extra).arc fraction = p.arc fraction := by
  have hwrapped : p.arc fraction = p.reached fraction :=
    (if_pos hclosed).trans (wrap_eq_self hfinite hpos hnonneg hlt)
  rw [hwrapped, arc, reached_opened htotal, htotal]
  exact (if_neg Bool.false_ne_true).trans (clamp_eq_self hnonneg (le_of_lt hlt))

/-- On the closed path evenly spaced items are where the open path has them. -/
theorem solve_opened (h : p.solve = .ok solution) (hclosed : p.closed = true)
    (heven : p.spacing = .even) (hoffset : (p.offset == 0) = true)
    (hfinite : p.totalLength.isFinite = true) (hcount : p.items.length < 2 ^ 24)
    (hextra : goodItem extra = true) :
    ∃ solution', (p.opened extra).solve = .ok solution' ∧
      solution.placements = solution'.placements.take p.items.length := by
  obtain ⟨hchecked, hplacements⟩ := of_solve h
  have hopened := hchecked.opened hextra
  have hwalk := sameWalk_opened hchecked hclosed extra
  have htotal := hwalk.totalLength_eq hopened hchecked
  have hstart := start_opened hchecked.points_nonempty extra
  obtain ⟨_, hsolve⟩ := hopened.solve_eq
  refine ⟨_, hsolve, hplacements.trans ?_⟩
  dsimp only
  -- Without a length both paths have all their items at the start.
  by_cases hlength : p.totalLength ≤ 0
  · rw [placements, placements, htotal, if_pos hlength, if_pos hlength, hstart, ← List.map_take]
    exact congrArg _ (List.take_left).symm
  rw [placements, placements, htotal, if_neg hlength, if_neg hlength, hstart, ← List.map_take,
    ← fractions_opened hclosed heven]
  refine List.map_congr_left fun fraction hfraction => ?_
  have hpos : 0 < p.totalLength :=
    lt_of_not_le hchecked.totalLength_magnitude.isNaN rfl hlength
  obtain ⟨hnonneg, hlt⟩ := hchecked.reached_between hfinite hlength hoffset
    (fractions_within hclosed heven hcount.le hfraction)
  rw [spot, spot, arc_opened hclosed hfinite hpos htotal hnonneg hlt]
  exact (hwalk.placement_find _ _).symm

/-- A closed path of two sides with an offset of minus zero. -/
def hairpin : PathLayout where
  points := [⟨0, 0⟩, ⟨3, 4⟩]
  items := [⟨1, 1⟩, ⟨2, 1⟩, ⟨0, 0⟩]
  spacing := .even
  length := some 7
  offset := -0
  closed := true

theorem hairpin_opened : ∃ solution solution', hairpin.solve = .ok solution ∧
    hairpin.closed = true ∧ hairpin.spacing = .even ∧ (hairpin.offset == 0) = true ∧
    hairpin.totalLength.isFinite = true ∧ hairpin.items.length < 2 ^ 24 ∧
    goodItem ⟨5, 5⟩ = true ∧ (hairpin.opened ⟨5, 5⟩).solve = .ok solution' ∧
    solution.placements = solution'.placements.take hairpin.items.length := by
  have hoffset : (hairpin.offset == 0) = true := by decide
  have hfinite : hairpin.totalLength.isFinite = true := by decide +kernel
  have hcount : hairpin.items.length < 2 ^ 24 := by decide
  have hextra : goodItem ⟨5, 5⟩ = true := by decide
  obtain ⟨_, hsolve⟩ := (problem?_eq_none_iff.mp (by decide : hairpin.problem? = none)).solve_eq
  obtain ⟨_, hsolve', hsame⟩ := solve_opened hsolve rfl rfl hoffset hfinite hcount hextra
  exact ⟨_, _, hsolve, rfl, rfl, hoffset, hfinite, hcount, hextra, hsolve', hsame⟩

end RetainedScene.PathLayout
