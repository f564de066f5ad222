import RetainedScene.Proofs.Path.Closing
import RetainedScene.Proofs.Path.Fractions
import RetainedScene.Proofs.Path.Search

/-!
# Items keep their order along an open path

Every step from the number of an item to its place keeps the order, however it is rounded: its
fraction, its distance along the path, the segment that is found, and the part of this segment.
-/

set_option autoImplicit false

namespace RetainedScene

open Binary32 Scalar

/-- On an earlier segment, or on the same one and no further along it. -/
def Spot.NotAfter : Spot → Spot → Prop
  | .on index _ t, .on index' _ t' => index < index' ∨ index = index' ∧ t ≤ t'
  | _, _ => False

namespace Segment

variable {walked arc arc' : Float32} {segments : List Segment} {segment segment' : Segment}
  {index index' : Nat}

/-- What reaches further is reached no earlier. -/
theorem FirstReaching.index_le (h : FirstReaching walked segments arc index segment)
    (h' : FirstReaching walked segments arc' index' segment') (hle : arc ≤ arc') :
    index ≤ index' := by
  by_contra hlt
  exact h.first index' segment' (Nat.lt_of_not_le hlt) h'.entry h'.positive
    (le_trans hle h'.reaches)

end Segment

namespace PathLayout

variable {p : PathLayout} {solution : Solution} {fraction fraction' arc arc' : Float32}

namespace Checked

variable (h : p.Checked) (hfinite : p.totalLength.isFinite = true)

include h hfinite

theorem reached_mono (hfraction : Within 1 fraction) (hfraction' : Within 1 fraction')
    (hle : fraction ≤ fraction') : p.reached fraction ≤ p.reached fraction' := by
  have husable := h.usable_within hfinite
  have hproduct {f : Float32} (hf : Within 1 f) : (f * p.usable).isFinite = true :=
    (hf.mul husable (value_representable p.totalLength) (one_mul _).le).isFinite
  refine add_le_add_of_atLeast (atLeast_value (hproduct hfraction))
    (atLeast_value h.offset_finite) ?_ (le_refl (isNaN_of_isFinite h.offset_finite))
  exact mul_mono hfraction.isFinite hfraction'.isFinite husable.isFinite husable.value_nonneg hle

/-- The part of a segment that is not before one that reaches no further. -/
theorem part_mono (hlow : 0 ≤ arc) (hle : arc ≤ arc') (hhigh : arc' ≤ p.totalLength)
    {segment : Segment} (hmem : segment ∈ p.segments) (hlength : 0 < segment.length)
    (index : Nat) :
    clamp ((arc - Segment.reach 0 p.segments index) / segment.length) 0 1 ≤
      clamp ((arc' - Segment.reach 0 p.segments index) / segment.length) 0 1 := by
  have hwithin {x : Float32} (hx : 0 ≤ x) (hx' : x ≤ p.totalLength) :
      Within (value p.totalLength) x :=
    ⟨atLeast_zero_iff.mpr hx, (atMost_value hfinite).of_le hx'⟩
  obtain ⟨hmagnitude, hreach⟩ := h.reach_le index
  have hwalked := hwithin hmagnitude.zero_le hreach
  have harc := hwithin hlow (le_trans hle hhigh)
  have harc' := hwithin (le_trans hlow hle) hhigh
  have hsegment := hwithin (le_of_lt hlength) (h.length_le hmem)
  have hpart := value_representable p.totalLength
  refine clamp_mono (by decide) (div_mono (harc.isFinite_sub hwalked hpart)
    (harc'.isFinite_sub hwalked hpart) hsegment.isFinite
    ((value_pos_iff hsegment.isFinite).mpr hlength) ?_)
  exact sub_mono harc.isFinite harc'.isFinite hwalked.isFinite hle

theorem spot_notAfter (hpos : 0 < p.totalLength) (hopen : p.closed = false)
    (hfraction : Within 1 fraction) (hfraction' : Within 1 fraction')
    (hle : fraction ≤ fraction') : (p.spot fraction).NotAfter (p.spot fraction') := by
  have hreached := h.reached_mono hfinite hfraction hfraction' hle
  obtain ⟨hnumber, hnumber', -⟩ := le_iff_rank.mp hreached
  have harc : p.arc fraction ≤ p.arc fraction' := by
    rw [PathLayout.arc, PathLayout.arc, hopen]
    exact clamp_mono (le_of_lt hpos) hreached
  obtain ⟨hlow, hhigh⟩ := arc_between hfinite hpos hnumber (by simp [hopen])
  obtain ⟨hlow', hhigh'⟩ := arc_between hfinite hpos hnumber' (by simp [hopen])
  obtain ⟨index, segment, hfirst, hfind⟩ := h.find_on hpos hhigh
  obtain ⟨index', segment', hfirst', hfind'⟩ := h.find_on hpos hhigh'
  rw [spot, spot, hfind, hfind']
  rcases (hfirst.index_le hfirst' harc).lt_or_eq with hlt | rfl
  · exact .inl hlt
  · obtain rfl : segment = segment' := Option.some.inj (hfirst.entry.symm.trans hfirst'.entry)
    exact .inr ⟨rfl, h.part_mono hfinite hlow harc hhigh' (List.mem_of_getElem? hfirst.entry)
      hfirst.positive index⟩

end Checked

/-- No item comes before an earlier one. The number of items is one that a word can count. -/
theorem solve_keepsOrder (h : p.solve = .ok solution) (hopen : p.closed = false)
    (hfinite : p.totalLength.isFinite = true) (hpos : 0 < p.totalLength)
    (hcount : p.items.length < 2 ^ 64)
    (hwidth : p.spacing = .weighted → p.widthSum.isFinite = true) :
    ∃ spots, p.fractions.mapM p.spot? = some spots ∧
      solution.placements = spots.map (Spot.placement p.start) ∧
      spots.Pairwise Spot.NotAfter := by
  obtain ⟨hchecked, hplacements⟩ := of_solve h
  obtain ⟨hordered, hwithin⟩ := hchecked.fractions_ordered hopen hcount hwidth
  refine ⟨p.fractions.map p.spot, ?_, ?_, ?_⟩
  · rw [hchecked.spot?_eq]
    exact List.mapM_pure
  · rw [hplacements, placements, if_neg fun hle => not_lt_of_le hle hpos, List.map_map]
    rfl
  · refine List.pairwise_map.mpr (hordered.imp_of_mem fun hx hy hle => ?_)
    exact hchecked.spot_notAfter hfinite hpos hopen (hwithin _ hx) (hwithin _ hy) hle

/-- A path with a bend and a corner that is there twice, on which the last item is held at the
    end. -/
def ramp : PathLayout where
  points := [⟨0, 0⟩, ⟨3, 4⟩, ⟨3, 4⟩, ⟨9, 4⟩]
  items := [⟨1, 1⟩, ⟨0, 1⟩, ⟨5, 1⟩, ⟨0.5, 1⟩]
  spacing := .weighted
  length := some 9.5
  offset := 2.25
  closed := false

theorem ramp_keepsOrder : ∃ solution, ramp.solve = .ok solution ∧ ramp.closed = false ∧
    ramp.totalLength.isFinite = true ∧ 0 < ramp.totalLength ∧ ramp.items.length < 2 ^ 64 ∧
    (ramp.spacing = .weighted → ramp.widthSum.isFinite = true) ∧
    ∃ spots, ramp.fractions.mapM ramp.spot? = some spots ∧
      solution.placements = spots.map (Spot.placement ramp.start) ∧
      spots.Pairwise Spot.NotAfter := by
  have hfinite : ramp.totalLength.isFinite = true := by decide +kernel
  have hpos : 0 < ramp.totalLength := by decide +kernel
  have hcount : ramp.items.length < 2 ^ 64 := by decide
  have hwidth : ramp.widthSum.isFinite = true := by decide +kernel
  obtain ⟨_, hsolve⟩ := (problem?_eq_none_iff.mp (by decide : ramp.problem? = none)).solve_eq
  exact ⟨_, hsolve, rfl, hfinite, hpos, hcount, fun _ => hwidth,
    solve_keepsOrder hsolve rfl hfinite hpos hcount fun _ => hwidth⟩

end PathLayout

end RetainedScene
