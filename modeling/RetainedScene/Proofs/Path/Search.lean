import RetainedScene.Proofs.Number.Remainder
import RetainedScene.Proofs.Path.Acceptance

/-!
# Where a distance along the path leads

The length of a path is added up over all segments, and the search adds up again what it walks
past. Both sums agree bit for bit, so that a distance within the path is found before its end: on
the first segment with a length that reaches it.
-/

set_option autoImplicit false

namespace RetainedScene

open Binary32 Scalar

namespace Segment

variable {walked arc : Float32} {segment segment' : Segment} {segments rest : List Segment}

/-- How far the first `count` segments reach, `walked` along the path. -/
def reach (walked : Float32) (segments : List Segment) (count : Nat) : Float32 :=
  ((segments.take count).map length).foldl (· + ·) walked

/-- The first segment with a length whose end is not before the distance `arc`. -/
structure FirstReaching (walked : Float32) (segments : List Segment) (arc : Float32) (index : Nat)
    (segment : Segment) : Prop where
  entry : segments[index]? = some segment
  positive : 0 < segment.length
  reaches : arc ≤ reach walked segments (index + 1)
  first (k : Nat) (earlier : Segment) : k < index → segments[k]? = some earlier →
    0 < earlier.length → ¬ arc ≤ reach walked segments (k + 1)

theorem FirstReaching.later {k : Nat}
    (h : FirstReaching (walked + segment.length) rest arc k segment')
    (hsegment : 0 < segment.length → ¬ arc ≤ walked + segment.length) :
    FirstReaching walked (segment :: rest) arc (k + 1) segment' where
  entry := h.entry
  positive := h.positive
  reaches := h.reaches
  first j earlier hj hearlier hlength := by
    cases j with
    | zero =>
      obtain rfl : segment = earlier := Option.some.inj hearlier
      exact hsegment hlength
    | succ j => exact h.first j earlier (Nat.lt_of_succ_lt_succ hj) hearlier hlength

theorem Bounded.length_pos (h : segment.Bounded) (hlength : segment.hasLength = true) :
    0 < segment.length :=
  lt_of_not_le h.length_magnitude.isNaN rfl (hasLength_iff.mp hlength)

theorem reach_all : reach walked segments segments.length =
    (segments.map length).foldl (· + ·) walked := by
  rw [reach, List.take_length]

theorem reach_succ (walked : Float32) {k : Nat} (h : segments[k]? = some segment) :
    reach walked segments (k + 1) = reach walked segments k + segment.length := by
  rw [reach, reach, List.take_add_one, h, Option.toList_some, List.map_append, List.foldl_append]
  rfl

theorem reach_mono (h : ∀ segment ∈ segments, segment.Bounded) (hwalked : AtLeast walked 0)
    {j k : Nat} (hle : j ≤ k) : reach walked segments j ≤ reach walked segments k :=
  foldl_le_foldl ((List.take_sublist_take_left hle).map length)
    (fun x hx => (lengths_magnitude h x (((List.take_sublist ..).map length).subset hx)).nonneg)
    hwalked (le_refl hwalked.isNaN)

theorem reach_eq_self (h : ∀ segment ∈ segments, segment.Bounded) (hwalked : Magnitude walked)
    {count : Nat} (hnone : ∀ j segment, j < count → segments[j]? = some segment →
      segment.length ≤ 0) : reach walked segments count = walked := by
  induction count with
  | zero => rfl
  | succ count ih =>
    have hbefore := ih fun j segment hj => hnone j segment (by omega)
    cases hentry : segments[count]? with
    | none =>
      rw [reach, List.take_add_one, hentry, Option.toList_none, List.append_nil]
      exact hbefore
    | some segment =>
      have hlength := (h segment (List.mem_of_getElem? hentry)).length_magnitude.eq_zero
        (hnone count segment (by omega) hentry)
      rw [reach_succ walked hentry, hbefore, hlength, hwalked.add_zero]

theorem total_eq_reach (h : ∀ segment ∈ segments, segment.Bounded) :
    total (segments.map length) = reach 0 segments segments.length := by
  rw [reach_all, Magnitude.total_eq_foldl (lengths_magnitude h)]

theorem reach_of_no_length (h : ∀ segment ∈ segments, segment.Bounded) (hwalked : Magnitude walked)
    (hnone : ∀ segment ∈ segments, segment.hasLength = false) :
    reach walked segments segments.length = walked :=
  reach_eq_self h hwalked fun _ segment _ hentry => by
    simpa [hasLength] using hnone segment (List.mem_of_getElem? hentry)

/-- A segment that the distance is not on is passed over or walked past, which is the same. -/
theorem find_step (hsegment : segment.Bounded) (hwalked : Magnitude walked)
    (hpast : segment.hasLength = true → ¬ arc ≤ walked + segment.length) (start : Nat)
    (last : Option Segment) (rest : List Segment) : ∃ last',
      Spot.find arc start walked last (segment :: rest) =
        Spot.find arc (start + 1) (walked + segment.length) last' rest := by
  rw [Spot.find]
  cases hlength : segment.hasLength with
  | false =>
    refine ⟨last, ?_⟩
    rw [hsegment.length_eq_zero hlength, hwalked.add_zero]
    exact if_pos (by decide)
  | true =>
    refine ⟨some segment, ?_⟩
    rw [if_neg (hasLength_iff.mp hlength), if_neg (hpast hlength)]

/-- If nothing later had a length, the distance would have been reached already. -/
theorem exists_later (h : ∀ s ∈ segment :: rest, s.Bounded) (hwalked : Magnitude walked)
    (hexists : ∃ s ∈ segment :: rest, s.hasLength = true)
    (harc : arc ≤ reach walked (segment :: rest) (rest.length + 1))
    (hpast : segment.hasLength = true → ¬ arc ≤ walked + segment.length) :
    ∃ s ∈ rest, s.hasLength = true := by
  obtain ⟨hsegment, hrest⟩ := List.forall_mem_cons.mp h
  by_contra hnone
  push Not at hnone
  obtain ⟨s, hmem, hs⟩ := hexists
  rcases List.mem_cons.mp hmem with rfl | hmem
  · refine hpast hs ?_
    rw [← reach_of_no_length hrest (hwalked.add hsegment.length_magnitude) fun s hs => by
      simpa using hnone s hs]
    exact harc
  · exact hnone s hmem hs

/-- The search never gets past the end with a distance that all segments together reach. -/
theorem find_of_le (h : ∀ segment ∈ segments, segment.Bounded) (hwalked : Magnitude walked)
    (hexists : ∃ segment ∈ segments, segment.hasLength = true)
    (harc : arc ≤ reach walked segments segments.length) (start : Nat) (last : Option Segment) :
    ∃ k segment, FirstReaching walked segments arc k segment ∧
      Spot.find arc start walked last segments =
        .on (start + k) segment (clamp ((arc - reach walked segments k) / segment.length) 0 1) := by
  induction segments generalizing walked start last with
  | nil =>
    obtain ⟨_, hmem, -⟩ := hexists
    cases hmem
  | cons segment rest ih =>
    obtain ⟨hsegment, hrest⟩ := List.forall_mem_cons.mp h
    by_cases hhere : segment.hasLength = true ∧ arc ≤ walked + segment.length
    · obtain ⟨hlength, hreaches⟩ := hhere
      refine ⟨0, segment, ⟨rfl, hsegment.length_pos hlength, hreaches,
        fun k _ hk => absurd hk (Nat.not_lt_zero k)⟩, ?_⟩
      rw [Spot.find, if_neg (hasLength_iff.mp hlength), if_pos hreaches]
      rfl
    -- Past this segment the rest still has to reach the distance, so it has a length too.
    · have hpast : segment.hasLength = true → ¬ arc ≤ walked + segment.length :=
        fun hlength hreaches => hhere ⟨hlength, hreaches⟩
      obtain ⟨last', hstep⟩ := find_step hsegment hwalked hpast start last rest
      obtain ⟨k, segment', hfirst, hfind⟩ := ih hrest (hwalked.add hsegment.length_magnitude)
        (exists_later h hwalked hexists harc hpast) harc (start + 1) last'
      refine ⟨k + 1, segment', hfirst.later fun hpos => hpast ?_, ?_⟩
      · exact hasLength_iff.mpr fun hle => not_lt_of_le hle hpos
      · rw [hstep, hfind, Nat.add_right_comm, Nat.add_assoc]
        rfl

end Segment

namespace PathLayout

variable {p : PathLayout} {solution : Solution} {fraction arc : Float32}

theorem Checked.totalLength_eq_reach (h : p.Checked) :
    p.totalLength = Segment.reach 0 p.segments p.segments.length :=
  Segment.total_eq_reach h.segments_bounded

/-- A distance within the path is on a segment. -/
theorem Checked.find_on (h : p.Checked) (hpos : 0 < p.totalLength) (hhigh : arc ≤ p.totalLength) :
    ∃ index segment, Segment.FirstReaching 0 p.segments arc index segment ∧
      Spot.find arc 0 0 none p.segments = .on index segment
        (clamp ((arc - Segment.reach 0 p.segments index) / segment.length) 0 1) := by
  have hexists := Segment.exists_hasLength h.segments_bounded fun hle => not_lt_of_le hle hpos
  obtain ⟨index, segment, hfirst, hfind⟩ := Segment.find_of_le h.segments_bounded .zero hexists
    (h.totalLength_eq_reach ▸ hhigh) 0 none
  rw [Nat.zero_add] at hfind
  exact ⟨index, segment, hfirst, hfind⟩

theorem arc_between (hfinite : p.totalLength.isFinite = true) (hpos : 0 < p.totalLength)
    (hnumber : (p.reached fraction).isNaN = false)
    (hclosed : p.closed = true → (p.reached fraction).isFinite = true) :
    0 ≤ p.arc fraction ∧ p.arc fraction ≤ p.totalLength := by
  unfold PathLayout.arc
  split_ifs with hc
  · exact wrap_between hfinite hpos (hclosed hc)
  · exact clamp_between hnumber (le_of_lt hpos)

/-- What is walked before a segment and the segment itself are parts of the path. -/
theorem Checked.reach_le (h : p.Checked) (count : Nat) :
    Magnitude (Segment.reach 0 p.segments count) ∧
      Segment.reach 0 p.segments count ≤ p.totalLength := by
  have htake : ∀ segment ∈ p.segments.take count, segment.Bounded :=
    fun segment hs => h.segments_bounded segment (List.mem_of_mem_take hs)
  have htotal : Segment.reach 0 p.segments count =
      total ((p.segments.take count).map Segment.length) :=
    (Magnitude.total_eq_foldl (Segment.lengths_magnitude htake)).symm
  rw [htotal]
  refine ⟨.total (Segment.lengths_magnitude htake), total_le_of_sublist ?_ fun x hx => ?_⟩
  · exact (List.take_sublist count p.segments).map Segment.length
  · exact (Segment.lengths_magnitude h.segments_bounded x hx).nonneg

theorem Checked.length_le (h : p.Checked) {segment : Segment} (hmem : segment ∈ p.segments) :
    segment.length ≤ p.totalLength := by
  have hsingle : [segment.length].Sublist (p.segments.map Segment.length) :=
    List.singleton_sublist.mpr (List.mem_map_of_mem hmem)
  have hle : total [segment.length] ≤ p.totalLength := total_le_of_sublist hsingle fun x hx =>
    (Segment.lengths_magnitude h.segments_bounded x hx).nonneg
  exact hle

/-- On a path of finite length the part of a segment is a number. -/
theorem Checked.part_isNaN (h : p.Checked) (hfinite : p.totalLength.isFinite = true)
    (hlow : 0 ≤ arc) (hhigh : arc ≤ p.totalLength) {segment : Segment} (hmem : segment ∈ p.segments)
    (hpos : 0 < segment.length) (count : Nat) :
    ((arc - Segment.reach 0 p.segments count) / segment.length).isNaN = false := by
  have htotal := atMost_value hfinite
  obtain ⟨hreach, hle⟩ := h.reach_le count
  have harc := htotal.of_le hhigh
  have hlength := (htotal.of_le (h.length_le hmem)).isFinite
    (h.segments_bounded segment hmem).length_magnitude.nonneg
  have hpart := value_representable p.totalLength
  have hmost := harc.sub hreach.nonneg hpart (by simp)
  have hleast := (atLeast_zero_iff.mpr hlow).sub (htotal.of_le hle) hpart.neg (by simp)
  exact (RoundsTo.div (hmost.isFinite hleast) hlength ((value_pos_iff hlength).mpr hpos).ne').isNaN

/-- An item is placed on the first segment with a length that reaches its distance along the path,
    at a part of this segment, and with its angle. -/
theorem solve_lands (h : p.solve = .ok solution) (hfinite : p.totalLength.isFinite = true)
    (hpos : 0 < p.totalLength) {item : Nat} (hitem : p.fractions[item]? = some fraction)
    (hnumber : (p.reached fraction).isNaN = false)
    (hclosed : p.closed = true → (p.reached fraction).isFinite = true) :
    ∃ arc index segment t, p.arc? fraction = some arc ∧ 0 ≤ arc ∧ arc ≤ p.totalLength ∧
      Segment.FirstReaching 0 p.segments arc index segment ∧
      p.spot? fraction = some (.on index segment t) ∧ 0 ≤ t ∧ t ≤ 1 ∧
      solution.placements[item]? = some ⟨segment.start.lerp segment.stop t, segment.angle⟩ := by
  obtain ⟨hchecked, hplacements⟩ := of_solve h
  have hlength : ¬ p.totalLength ≤ 0 := fun hle => not_lt_of_le hle hpos
  obtain ⟨hlow, hhigh⟩ := arc_between hfinite hpos hnumber hclosed
  obtain ⟨index, segment, hfirst, hfind⟩ := Segment.find_of_le hchecked.segments_bounded .zero
    (Segment.exists_hasLength hchecked.segments_bounded hlength)
    (hchecked.totalLength_eq_reach ▸ hhigh) 0 none
  rw [Nat.zero_add] at hfind
  have hpart := clamp_between (hchecked.part_isNaN hfinite hlow hhigh
    (List.mem_of_getElem? hfirst.entry) hfirst.positive index) (show (0 : Float32) ≤ 1 by decide)
  refine ⟨p.arc fraction, index, segment, _, hchecked.arc?_eq fraction, hlow, hhigh, hfirst, ?_,
    hpart.1, hpart.2, ?_⟩
  · rw [hchecked.spot?_eq]
    exact congrArg some hfind
  · rw [hplacements, placements, if_neg hlength, List.getElem?_map, hitem]
    exact congrArg (fun spot => some (Spot.placement p.start spot)) hfind

/-- A triangle with one corner twice, on which the second item wraps backwards. -/
def triangle : PathLayout where
  points := [⟨0, 0⟩, ⟨30, 0⟩, ⟨30, 0⟩, ⟨30, 40⟩]
  items := [⟨10, 1⟩, ⟨30, 1⟩]
  spacing := .weighted
  length := none
  offset := -70
  closed := true

theorem triangle_lands : ∃ solution, triangle.solve = .ok solution ∧
    triangle.totalLength.isFinite = true ∧ 0 < triangle.totalLength ∧
    triangle.fractions[1]? = some (0.5 : Float32) ∧ (triangle.reached 0.5).isNaN = false ∧
    (triangle.closed = true → (triangle.reached 0.5).isFinite = true) ∧
    ∃ arc index segment t, triangle.arc? 0.5 = some arc ∧ 0 ≤ arc ∧ arc ≤ triangle.totalLength ∧
      Segment.FirstReaching 0 triangle.segments arc index segment ∧
      triangle.spot? 0.5 = some (.on index segment t) ∧ 0 ≤ t ∧ t ≤ 1 ∧
      solution.placements[1]? = some ⟨segment.start.lerp segment.stop t, segment.angle⟩ := by
  have hfinite : triangle.totalLength.isFinite = true := by decide +kernel
  have hpos : 0 < triangle.totalLength := by decide +kernel
  have hfraction : triangle.fractions[1]? = some (0.5 : Float32) := by decide +kernel
  have hnumber : (triangle.reached 0.5).isNaN = false := by decide +kernel
  have hreached : (triangle.reached 0.5).isFinite = true := by decide +kernel
  obtain ⟨_, hsolve⟩ := (problem?_eq_none_iff.mp (by decide : triangle.problem? = none)).solve_eq
  exact ⟨_, hsolve, hfinite, hpos, hfraction, hnumber, fun _ => hreached,
    solve_lands hsolve hfinite hpos hfraction hnumber fun _ => hreached⟩

end PathLayout

end RetainedScene
