import RetainedScene.Proofs.Path.Acceptance

/-!
# Segments that are passed over

A segment without length adds nothing to the length of a path and nothing is found on it. So only
the segments with a length decide where items are, and a point that is repeated leaves them as they
are, wherever it is on an open or a closed path.
-/

set_option autoImplicit false

namespace RetainedScene

open Binary32 Scalar

namespace Segment

variable {points before after : List Vec2} {point : Vec2}

/-- A path is cut at any of its points. -/
theorem between_append (before : List Vec2) (point : Vec2) (after : List Vec2) :
    between (before ++ point :: after) =
      between (before ++ [point]) ++ between (point :: after) := by
  induction before with
  | nil => rfl
  | cons a rest ih =>
    cases rest with
    | nil => rfl
    | cons b more => exact congrArg (⟨a, b⟩ :: ·) ih

theorem hasLength_self (h : point.isFinite = true) : hasLength ⟨point, point⟩ = false := by
  rw [hasLength, length, Vec2.distance_self h]
  decide

theorem filter_between_repeat (h : point.isFinite = true) (before after : List Vec2) :
    (between (before ++ point :: point :: after)).filter hasLength =
      (between (before ++ point :: after)).filter hasLength := by
  have hskip : (between (point :: point :: after)).filter hasLength =
      (between (point :: after)).filter hasLength :=
    List.filter_cons_of_neg (by simp [hasLength_self h])
  rw [between_append, List.filter_append, hskip, ← List.filter_append, ← between_append]

/-- A copy that is inserted after an entry stands beside it. -/
theorem insertIdx_copy {index : Nat} (h : points[index]? = some point) :
    ∃ before after, points = before ++ point :: after ∧
      points.insertIdx (index + 1) point = before ++ point :: point :: after := by
  induction points generalizing index with
  | nil => cases h
  | cons a rest ih =>
    cases index with
    | zero =>
      obtain rfl : a = point := Option.some.inj h
      exact ⟨[], rest, rfl, rfl⟩
    | succ index =>
      obtain ⟨before, after, hrest, hinsert⟩ := ih h
      exact ⟨a :: before, after, congrArg (a :: ·) hrest, congrArg (a :: ·) hinsert⟩

/-- The points that a path goes through one after the other. -/
def visited (points : List Vec2) (closed : Bool) : List Vec2 :=
  if closed then points ++ points.take 1 else points

/-- Closing a path of a single point would add a segment without length. -/
theorem filter_chain (h : ∀ point ∈ points, point.isFinite = true) (closed : Bool) :
    (chain points closed).filter hasLength =
      (between (visited points closed)).filter hasLength := by
  cases closed with
  | false => rfl
  | true =>
    match points with
    | [] => rfl
    | [point] =>
      exact (List.filter_cons_of_neg (by simp [hasLength_self (h point List.mem_cons_self)])).symm
    | first :: second :: rest => exact congrArg (List.filter hasLength) (if_pos (by simp))

theorem visited_repeat (before : List Vec2) (point : Vec2) (after : List Vec2) (closed : Bool) :
    ∃ later, visited (before ++ point :: after) closed = before ++ point :: later ∧
      visited (before ++ point :: point :: after) closed = before ++ point :: point :: later := by
  cases closed with
  | false => exact ⟨after, rfl, rfl⟩
  | true =>
    have htake : (before ++ point :: point :: after).take 1 =
        (before ++ point :: after).take 1 := by
      cases before <;> rfl
    refine ⟨after ++ (before ++ point :: after).take 1, ?_, ?_⟩
    · simp [visited]
    · simp [visited, htake]

theorem filter_chain_repeat (h : ∀ p ∈ before ++ point :: after, p.isFinite = true)
    (closed : Bool) : (chain (before ++ point :: point :: after) closed).filter hasLength =
      (chain (before ++ point :: after) closed).filter hasLength := by
  have hrepeat : ∀ p ∈ before ++ point :: point :: after, p.isFinite = true :=
    fun p hp => h p (by simpa using hp)
  obtain ⟨later, hvisited, hvisited'⟩ := visited_repeat before point after closed
  rw [filter_chain h, filter_chain hrepeat, hvisited, hvisited']
  exact filter_between_repeat (h point (by simp)) before later

/-- Neither the number of a segment nor those without length matter for a placement. -/
theorem placement_find_filter (origin : Vec2) (arc walked : Float32) (index index' : Nat)
    (last : Option Segment) (segments : List Segment) :
    (Spot.find arc index walked last segments).placement origin =
      (Spot.find arc index' walked last (segments.filter hasLength)).placement origin := by
  induction segments generalizing index index' walked last with
  | nil => cases last <;> rfl
  | cons segment rest ih =>
    rw [Spot.find]
    -- A segment that is skipped changes the number of the next one only.
    cases hlength : segment.hasLength with
    | false =>
      rw [List.filter_cons_of_neg (by simp [hlength]), if_pos (by simpa [hasLength] using hlength)]
      exact ih ..
    | true =>
      have hpositive := hasLength_iff.mp hlength
      rw [List.filter_cons_of_pos hlength, Spot.find, if_neg hpositive, if_neg hpositive]
      split
      · rfl
      · exact ih ..

end Segment

namespace PathLayout

variable {p q : PathLayout} {solution : Solution}

/-- Both layouts walk the same segments of a length. -/
def SameWalk (p q : PathLayout) : Prop :=
  p.segments.filter Segment.hasLength = q.segments.filter Segment.hasLength

namespace SameWalk

theorem totalLength_eq (h : p.SameWalk q) (hp : p.Checked) (hq : q.Checked) :
    p.totalLength = q.totalLength := by
  rw [totalLength, totalLength, ← Segment.total_filter_hasLength hp.segments_bounded,
    ← Segment.total_filter_hasLength hq.segments_bounded, h]

theorem placement_find (h : p.SameWalk q) (origin : Vec2) (arc : Float32) :
    (Spot.find arc 0 0 none p.segments).placement origin =
      (Spot.find arc 0 0 none q.segments).placement origin := by
  rw [Segment.placement_find_filter origin arc 0 0 0 none p.segments, h,
    ← Segment.placement_find_filter]

/-- Layouts that differ in their points only place their items alike. -/
theorem placements_eq {points : List Vec2} (h : SameWalk { p with points := points } p)
    (hp : p.Checked) (hq : Checked { p with points := points })
    (hstart : points.headD .zero = p.start) :
    placements { p with points := points } = p.placements := by
  have htotal := h.totalLength_eq hq hp
  have harc : arc { p with points := points } = p.arc := by
    funext fraction
    simp only [arc, reached, usable, htotal]
  have hspot (fraction : Float32) :
      (spot { p with points := points } fraction).placement p.start =
        (p.spot fraction).placement p.start := by
    rw [spot, spot, harc]
    exact h.placement_find _ _
  have horigin : start { p with points := points } = p.start := hstart
  simp only [placements, htotal, horigin, hspot]
  rfl

end SameWalk

/-- No item is moved when a point is repeated. -/
theorem solve_repeat {index : Nat} {point : Vec2} (h : p.solve = .ok solution)
    (hpoint : p.points[index]? = some point) :
    ∃ solution', { p with points := p.points.insertIdx (index + 1) point }.solve = .ok solution' ∧
      solution'.placements = solution.placements := by
  obtain ⟨hchecked, hplacements⟩ := of_solve h
  obtain ⟨before, after, hpoints, hinsert⟩ := Segment.insertIdx_copy hpoint
  have hfinite := hchecked.points_finite
  rw [hpoints] at hfinite
  have hrepeated : Checked { p with points := p.points.insertIdx (index + 1) point } :=
    { hchecked with
      points_finite := fun a ha => hfinite a (by simpa [hinsert] using ha)
      points_nonempty := by simp [hinsert] }
  have hwalk : SameWalk { p with points := p.points.insertIdx (index + 1) point } p := by
    rw [SameWalk, segments, segments, hinsert, hpoints]
    exact Segment.filter_chain_repeat hfinite p.closed
  have hstart : (p.points.insertIdx (index + 1) point).headD .zero = p.start := by
    rw [start, hinsert, hpoints]
    cases before <;> rfl
  obtain ⟨_, hsolve⟩ := hrepeated.solve_eq
  exact ⟨_, hsolve, (hwalk.placements_eq hchecked hrepeated hstart).trans hplacements.symm⟩

/-- A closed path of three corners, with less than its length in use. -/
def corner : PathLayout where
  points := [⟨3, 4⟩, ⟨0, 0⟩, ⟨6, 0⟩]
  items := [⟨1, 1⟩, ⟨2, 1⟩, ⟨3, 1⟩]
  spacing := .weighted
  length := some 9
  offset := 0.5
  closed := true

theorem corner_repeat : ∃ solution solution', corner.solve = .ok solution ∧
    corner.points[2]? = some ⟨6, 0⟩ ∧
    { corner with points := corner.points.insertIdx 3 ⟨6, 0⟩ }.solve = .ok solution' ∧
    solution'.placements = solution.placements := by
  have hpoint : corner.points[2]? = some ⟨6, 0⟩ := rfl
  obtain ⟨_, hsolve⟩ := (problem?_eq_none_iff.mp (by decide : corner.problem? = none)).solve_eq
  obtain ⟨_, hsolve', hsame⟩ := solve_repeat hsolve hpoint
  exact ⟨_, _, hsolve, hpoint, hsolve', hsame⟩

end PathLayout

end RetainedScene
