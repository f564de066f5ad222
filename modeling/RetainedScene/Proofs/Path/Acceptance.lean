import RetainedScene.Proofs.Checks
import RetainedScene.Proofs.Path.Lengths

/-!
# Which paths are accepted

A path is refused for the first of its conditions that does not hold, and otherwise each item is
placed. Distances of finite points may be infinite but never NaN, and so the bounds that a distance
along the path is held between are always in order.
-/

set_option autoImplicit false

namespace RetainedScene.PathLayout

open Binary32 Scalar

/-- What a path is checked for. -/
structure Checked (p : PathLayout) : Prop where
  points_finite : ∀ point ∈ p.points, point.isFinite = true
  length_good : ∀ length, p.length = some length → length.isFinite = true ∧ 0 ≤ length
  offset_finite : p.offset.isFinite = true
  items_good : ∀ size ∈ p.items, size.isFinite = true ∧ 0 ≤ size.x ∧ 0 ≤ size.y
  points_nonempty : p.points ≠ []

/-- The conditions in the order in which they are looked at. -/
def checks (p : PathLayout) : List (Check LayoutError) :=
  entryChecks (fun point : Vec2 => point.isFinite = true)
      (fun index => .invalid (.pathPoint index) .notFinite) p.points ++
    ⟨∀ length, p.length = some length → length.isFinite = true ∧ 0 ≤ length,
      .invalid .pathLength .notFiniteOrNegative⟩ ::
    ⟨p.offset.isFinite = true, .invalid .pathOffset .notFinite⟩ ::
    (entryChecks (fun size : Vec2 => size.isFinite = true ∧ 0 ≤ size.x ∧ 0 ≤ size.y)
        (fun item => .invalid (.pathItemSize item) .notFiniteOrNegative) p.items ++
      [⟨p.points ≠ [], .emptyPath⟩])

/-- Where the first item is, and all of them on a path without length. -/
def start (p : PathLayout) : Vec2 :=
  p.points.headD .zero

/-- Position of an item before it is wrapped or held. -/
def reached (p : PathLayout) (fraction : Float32) : Float32 :=
  fraction * p.usable + p.offset

def arc (p : PathLayout) (fraction : Float32) : Float32 :=
  if p.closed then wrap (p.reached fraction) p.totalLength
  else clamp (p.reached fraction) 0 p.totalLength

def spot (p : PathLayout) (fraction : Float32) : Spot :=
  Spot.find (p.arc fraction) 0 0 none p.segments

/-- What an accepted path is solved to. -/
def placements (p : PathLayout) : List Placement :=
  if p.totalLength ≤ 0 then p.items.map fun _ => ⟨p.start, 0⟩
  else p.fractions.map fun fraction => (p.spot fraction).placement p.start

variable {p : PathLayout} {solution : Solution}

theorem goodItem_iff {size : Vec2} :
    goodItem size = true ↔ size.isFinite = true ∧ 0 ≤ size.x ∧ 0 ≤ size.y := by
  simp only [goodItem, Bool.and_eq_true, decide_eq_true_eq, and_assoc]

theorem goodLength_iff {length : Float32} :
    goodLength length = true ↔ length.isFinite = true ∧ 0 ≤ length := by
  simp only [goodLength, Bool.and_eq_true, decide_eq_true_eq]

theorem allHold_checks : AllHold p.checks ↔ p.Checked := by
  simp only [checks, allHold_append, allHold_cons, allHold_nil, allHold_entryChecks, and_true]
  constructor
  · rintro ⟨hpoints, hlength, hoffset, hitems, hnonempty⟩
    exact ⟨hpoints, hlength, hoffset, hitems, hnonempty⟩
  · intro h
    exact ⟨h.points_finite, h.length_good, h.offset_finite, h.items_good, h.points_nonempty⟩

theorem problem?_decides (p : PathLayout) : Decides p.problem? p.checks := by
  have hproblem : p.problem? =
      ((p.points.findIdx? (!·.isFinite)).map fun index =>
        LayoutError.invalid (.pathPoint index) .notFinite).or
      (if p.length.any (!goodLength ·) then some (.invalid .pathLength .notFiniteOrNegative)
      else if !p.offset.isFinite then some (.invalid .pathOffset .notFinite)
      else ((p.items.findIdx? (!goodItem ·)).map fun item =>
          LayoutError.invalid (.pathItemSize item) .notFiniteOrNegative).or
        (if p.points.isEmpty then some .emptyPath else none)) := by
    rw [problem?]
    cases p.points.findIdx? (!·.isFinite) with
    | some index => rfl
    | none => cases p.items.findIdx? (!goodItem ·) <;> rfl
  rw [hproblem]
  refine .append (.findIdx? (fun _ => Iff.rfl) _ _) fun _ => .ite ?_ fun _ => ?_
  · cases p.length with
    | none => simp
    | some length =>
      simp only [Option.any_some, Option.some.injEq, forall_eq']
      rw [← goodLength_iff, Bool.not_eq_true', Bool.not_eq_true]
  refine .iteNot Iff.rfl fun _ => .append (.findIdx? (fun _ => goodItem_iff) _ _) fun _ => ?_
  exact .ite (by simp) fun _ => .of_allHold allHold_nil

theorem problem?_eq_none_iff : p.problem? = none ↔ p.Checked :=
  p.problem?_decides.eq_none_iff.trans allHold_checks

theorem length_centers (cursor : Float32) (items : List Vec2) :
    (centers cursor items).1.length = items.length := by
  induction items generalizing cursor with
  | nil => rfl
  | cons size rest ih => exact congrArg (· + 1) (ih _)

theorem length_fractions (p : PathLayout) : p.fractions.length = p.items.length := by
  have heven : p.evenFractions.length = p.items.length := by simp [evenFractions]
  unfold fractions
  cases p.spacing with
  | even => exact heven
  | weighted =>
    have hcenters := length_centers 0 p.items
    change p.weightedFractions.length = _
    unfold weightedFractions
    split
    case h_1 hnone =>
      rw [hnone] at hcenters
      exact hcenters
    case h_2 first rest stop hsome =>
      rw [hsome] at hcenters
      simp only [apply_ite List.length, heven, List.length_map, hcenters, ite_self]

theorem length_placements (p : PathLayout) : p.placements.length = p.items.length := by
  unfold placements
  split
  · exact List.length_map ..
  · exact (List.length_map ..).trans p.length_fractions

theorem getElem?_placements (hpos : 0 < p.totalLength) {item : Nat} {fraction : Float32}
    (hitem : p.fractions[item]? = some fraction) :
    p.placements[item]? = some ((p.spot fraction).placement p.start) := by
  rw [placements, if_neg fun hle => not_lt_of_le hle hpos, List.getElem?_map, hitem]
  rfl

namespace Checked

theorem segments_bounded (h : p.Checked) : ∀ segment ∈ p.segments, segment.Bounded :=
  Segment.chain_bounded h.points_finite

theorem totalLength_magnitude (h : p.Checked) : Magnitude p.totalLength :=
  Magnitude.total (Segment.lengths_magnitude h.segments_bounded)

theorem arc?_eq (h : p.Checked) (fraction : Float32) : p.arc? fraction = some (p.arc fraction) := by
  simp only [arc?, arc, reached, clamp?, if_pos h.totalLength_magnitude.zero_le]
  split <;> rfl

theorem spot?_eq (h : p.Checked) : p.spot? = fun fraction => some (p.spot fraction) := by
  funext fraction
  rw [spot?, h.arc?_eq]
  rfl

/-- An accepted path is solved without a fault. -/
theorem solve_eq (h : p.Checked) :
    ∃ segmentCount, p.solve = .ok ⟨p.placements, segmentCount⟩ := by
  obtain ⟨start, rest, hpoints⟩ := List.exists_cons_of_ne_nil h.points_nonempty
  have hstart : p.start = start := by rw [PathLayout.start, hpoints]; rfl
  rw [solve, problem?_eq_none_iff.mpr h, hpoints, placements, hstart]
  dsimp only
  by_cases hitems : p.items = []
  · have hfractions : p.fractions = [] := by
      rw [← List.length_eq_zero_iff, p.length_fractions, hitems]
      rfl
    exact ⟨none, by simp [hitems, hfractions]⟩
  rw [if_neg (by simpa using hitems)]
  split
  · exact ⟨none, rfl⟩
  · have hspots : p.fractions.mapM p.spot? = some (p.fractions.map p.spot) := by
      rw [h.spot?_eq]
      exact List.mapM_pure
    rw [hspots]
    exact ⟨some p.segments.length, by simp [Function.comp_def]⟩

end Checked

theorem solve_refused {error : LayoutError} (h : p.problem? = some error) :
    p.solve = .error (.refused error) := by
  rw [solve, h]

/-- There is nothing between a refusal and a placement. -/
theorem refused_or_solved (p : PathLayout) :
    (∃ error, p.problem? = some error ∧ p.solve = .error (.refused error)) ∨
      p.Checked ∧ ∃ segmentCount, p.solve = .ok ⟨p.placements, segmentCount⟩ := by
  cases hproblem : p.problem? with
  | some error => exact .inl ⟨error, rfl, solve_refused hproblem⟩
  | none =>
    have hchecked := problem?_eq_none_iff.mp hproblem
    exact .inr ⟨hchecked, hchecked.solve_eq⟩

theorem of_solve (h : p.solve = .ok solution) : p.Checked ∧ solution.placements = p.placements := by
  obtain ⟨error, -, hsolve⟩ | ⟨hchecked, segmentCount, hsolve⟩ := p.refused_or_solved
  · cases h.symm.trans hsolve
  · cases h.symm.trans hsolve
    exact ⟨hchecked, rfl⟩

theorem solve_eq_refused {error : LayoutError} :
    p.solve = .error (.refused error) ↔ p.problem? = some error := by
  refine ⟨fun h => ?_, solve_refused⟩
  obtain ⟨error', hproblem, hsolve⟩ | ⟨-, segmentCount, hsolve⟩ := p.refused_or_solved
  · cases h.symm.trans hsolve
    exact hproblem
  · cases h.symm.trans hsolve

theorem solve_ne_fault (fault : Fault) : p.solve ≠ .error (.fault fault) := by
  intro h
  obtain ⟨error, -, hsolve⟩ | ⟨-, segmentCount, hsolve⟩ := p.refused_or_solved <;>
    cases h.symm.trans hsolve

/-- The ways in which solving ends: with all items placed, or refused for the first condition. -/
structure Answers (p : PathLayout) : Prop where
  no_fault (fault : Fault) : p.solve ≠ .error (.fault fault)
  accepts : (∃ solution, p.solve = .ok solution) ↔ p.Checked
  refuses (error : LayoutError) : p.solve = .error (.refused error) ↔ FirstFails p.checks error
  placed (solution : Solution) : p.solve = .ok solution →
    solution.placements.length = p.items.length
  /-- The first and the last center are there where there are items. -/
  centered (cursor : Float32) : (centers cursor p.items).1.length = p.items.length
  total_number : p.Checked → p.totalLength.isNaN = false ∧ 0 ≤ p.totalLength
  held (fraction : Float32) : p.Checked → ∃ arc, p.arc? fraction = some arc

theorem solve_answers (p : PathLayout) : p.Answers where
  no_fault := solve_ne_fault
  accepts := by
    refine ⟨fun ⟨_, h⟩ => (of_solve h).1, fun h => ?_⟩
    obtain ⟨_, hsolve⟩ := h.solve_eq
    exact ⟨_, hsolve⟩
  refuses error := solve_eq_refused.trans p.problem?_decides.eq_some_iff
  placed solution h := by rw [(of_solve h).2, p.length_placements]
  centered cursor := length_centers cursor p.items
  total_number h := ⟨h.totalLength_magnitude.isNaN, h.totalLength_magnitude.zero_le⟩
  held fraction h := ⟨_, h.arc?_eq fraction⟩

end RetainedScene.PathLayout
