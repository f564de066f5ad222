import RetainedScene.Proofs.Layout.Merging
import RetainedScene.Proofs.Layout.Rounds

/-!
# Solving a grid ends without a fault

The checks of the cells are all that the rest of the solver relies on: the tracks that cells name
are there, the bounds of merged constraints are in order, and no count goes around.
-/

set_option autoImplicit false

namespace RetainedScene

theorem CellSpan.Fits.positive {declared : Option UInt64} {s : CellSpan} (h : s.Fits declared) :
    0 < s.count.toNat :=
  Nat.pos_of_ne_zero fun hzero => h.nonempty (UInt64.toNat_inj.mp hzero)

namespace Grid

variable {axis : Axis} {declared : Option UInt64} {spans : List CellSpan}

theorem le_foldl_stop (spans : List CellSpan) (count : Nat) :
    count ≤ spans.foldl (fun count s => max count s.stop) count ∧
      ∀ s ∈ spans, s.stop ≤ spans.foldl (fun count s => max count s.stop) count := by
  induction spans generalizing count with
  | nil => simp
  | cons s rest ih =>
    obtain ⟨hle, hrest⟩ := ih (max count s.stop)
    rw [List.foldl_cons]
    refine ⟨(Nat.le_max_left ..).trans hle, fun t ht => ?_⟩
    rcases List.mem_cons.mp ht with rfl | ht
    · exact (Nat.le_max_right ..).trans hle
    · exact hrest t ht

/-- Declared or counted, there are enough tracks for every cell. -/
theorem stop_le_trackCount (h : ∀ s ∈ spans, s.Fits declared) {s : CellSpan} (hs : s ∈ spans) :
    s.stop ≤ trackCount declared spans := by
  cases declared with
  | some count => exact (h s hs).within count rfl
  | none => exact (le_foldl_stop spans 0).2 s hs

theorem start_lt_trackCount (h : ∀ s ∈ spans, s.Fits declared) {s : CellSpan} (hs : s ∈ spans) :
    s.start.toNat < trackCount declared spans := by
  have hstop := stop_le_trackCount h hs
  have hpos := (h s hs).positive
  rw [CellSpan.stop] at hstop
  omega

theorem trackConstraints_ok (h : ∀ s ∈ spans, s.Fits declared) :
    trackConstraints (trackCount declared spans) spans =
      .ok ((List.range (trackCount declared spans)).map (trackConstraint spans)) := by
  rw [trackConstraints, if_pos]
  refine List.all_eq_true.mpr fun s hs => ?_
  rw [Bool.or_eq_true]
  exact .inr (decide_eq_true (start_lt_trackCount h hs))

theorem length_offsets (spacing cursor : Float32) (sizes : List Float32) :
    (offsets spacing cursor sizes).length = sizes.length := by
  induction sizes generalizing cursor with
  | nil => rfl
  | cons size rest ih => exact congrArg (· + 1) (ih _)

theorem trackConstraint_base (h : ∀ s ∈ spans, s.Fits declared) {c : Constraint Float32}
    (hc : c ∈ (List.range (trackCount declared spans)).map (trackConstraint spans)) :
    c.Solvable ∧ ∃ base, c.base? = some base := by
  obtain ⟨track, -, rfl⟩ := List.mem_map.mp hc
  have hsolvable := trackConstraint_solvable (fun s hs => (h s hs).constraint.toProper) track
  exact ⟨hsolvable, _, hsolvable.base?_eq⟩

/-- Nothing is left of the checks once they have passed: the tracks share what the gaps leave. -/
theorem solveAxis_eq (fits : ∀ s ∈ spans, s.Fits declared) (extent spacing : Float32) :
    solveAxis axis declared spans extent spacing =
      ((fillTracks ((List.range (trackCount declared spans)).map (trackConstraint spans))
        (Scalar.greater (extent - spacing * Float32.ofNat (trackCount declared spans - 1))
          0)).mapError .fault).map fun sizes => ⟨sizes, offsets spacing 0 sizes, spacing⟩ := by
  rw [solveAxis, spanProblem?_eq_none_iff.mpr fits, trackConstraints_ok fits]
  simp only [Except.mapError, bind, Except.bind, List.length_map, List.length_range]
  cases fillTracks ((List.range (trackCount declared spans)).map (trackConstraint spans))
    (Scalar.greater (extent - spacing * Float32.ofNat (trackCount declared spans - 1)) 0) <;> rfl

/-- An axis whose cells pass their checks is solved, with a size and an offset for each track. -/
theorem solveAxis_ok (hproblem : spanProblem? axis declared 0 spans = none)
    (extent spacing : Float32) :
    ∃ t, solveAxis axis declared spans extent spacing = .ok t ∧
      t.sizes.length = trackCount declared spans ∧
      t.offsets.length = trackCount declared spans := by
  have fits := fits_of_spanProblem? hproblem
  obtain ⟨sizes, hsizes, hsame⟩ := fillTracks_ok (fun c hc => (trackConstraint_base fits hc).2)
    (Scalar.greater (extent - spacing * Float32.ofNat (trackCount declared spans - 1)) 0)
  rw [List.length_map, List.length_range] at hsame
  refine ⟨⟨sizes, offsets spacing 0 sizes, spacing⟩, ?_, hsame, (length_offsets ..).trans hsame⟩
  rw [solveAxis_eq fits, hsizes]
  rfl

theorem place_ok {t : Tracks} {s : CellSpan} (hsizes : s.stop ≤ t.sizes.length)
    (hoffsets : s.start.toNat < t.offsets.length) : ∃ placed, t.place s = .ok placed := by
  rw [Tracks.place, List.getElem?_eq_getElem hoffsets]
  exact ⟨_, if_neg (by omega)⟩

structure AxisSafe (g : Grid) (axis : Axis) : Prop where
  /-- Every index of a merged constraint is in range, and every track has a base size. -/
  merged : ∃ constraints,
    trackConstraints (trackCount (g.declared axis) (g.spans axis)) (g.spans axis) =
        .ok constraints ∧
      constraints.length = trackCount (g.declared axis) (g.spans axis) ∧
      ∀ c ∈ constraints, c.Solvable ∧ ∃ base, c.base? = some base
  /-- The last track of a cell and the end of its tracks are counted without going around. -/
  counts : ∀ s ∈ g.spans axis, (s.count - 1).toNat + 1 = s.count.toNat ∧
    (s.start + s.count).toNat = s.stop
  tracks : ∃ t, g.tracks axis = .ok t ∧ t.sizes.length = t.offsets.length ∧
    ∀ s ∈ g.spans axis, s.start.toNat < t.offsets.length ∧ s.stop ≤ t.sizes.length

theorem axisSafe {g : Grid} {axis : Axis}
    (h : spanProblem? axis (g.declared axis) 0 (g.spans axis) = none) : g.AxisSafe axis := by
  have fits := fits_of_spanProblem? h
  obtain ⟨t, ht, hsizes, hoffsets⟩ := solveAxis_ok h (g.size.along axis) g.spacing
  refine ⟨⟨_, trackConstraints_ok fits, by simp, fun c hc => trackConstraint_base fits hc⟩, ?_,
    ⟨t, ht, hsizes.trans hoffsets.symm, ?_⟩⟩
  · intro s hs
    have hbelow := (fits s hs).below
    have hpos := (fits s hs).positive
    have hcount := s.count.toNat_lt
    rw [CellSpan.stop] at hbelow ⊢
    rw [UInt64.toNat_sub, UInt64.toNat_add]
    simp only [UInt64.size] at hbelow
    have hone : (1 : UInt64).toNat = 1 := rfl
    omega
  · intro s hs
    rw [hsizes, hoffsets]
    exact ⟨start_lt_trackCount fits hs, stop_le_trackCount fits hs⟩

theorem cellRect_ok {g : Grid} {columns rows : Tracks} (hcolumns : ∀ s ∈ g.spans .horizontal,
      s.start.toNat < columns.offsets.length ∧ s.stop ≤ columns.sizes.length)
    (hrows : ∀ s ∈ g.spans .vertical,
      s.start.toNat < rows.offsets.length ∧ s.stop ≤ rows.sizes.length)
    {cell : Cell} (hcell : cell ∈ g.cells) :
    ∃ rect, cellRect g.origin columns rows cell = .ok rect := by
  have hcolumn := hcolumns cell.columns (List.mem_map_of_mem hcell)
  have hrow := hrows cell.rows (List.mem_map_of_mem hcell)
  obtain ⟨placed, hplaced⟩ := place_ok hcolumn.2 hcolumn.1
  obtain ⟨placed', hplaced'⟩ := place_ok hrow.2 hrow.1
  rw [cellRect, hplaced, hplaced']
  exact ⟨_, rfl⟩

theorem tracks_refused {g : Grid} {axis : Axis} {error : LayoutError}
    (h : spanProblem? axis (g.declared axis) 0 (g.spans axis) = some error) :
    g.tracks axis = .error (.refused error) := by
  rw [tracks, solveAxis, h]
  rfl

/-- The first thing wrong with a grid. All cells are checked on one axis before the other. -/
def refusal? (g : Grid) : Option LayoutError :=
  g.problem?.or ((spanProblem? .horizontal (g.declared .horizontal) 0 (g.spans .horizontal)).or
    (spanProblem? .vertical (g.declared .vertical) 0 (g.spans .vertical)))

theorem solve_refused {g : Grid} {error : LayoutError} (h : g.refusal? = some error) :
    g.solve = .error (.refused error) := by
  rw [refusal?] at h
  rw [solve]
  cases hproblem : g.problem? with
  | some error' =>
    rw [hproblem, Option.some_or] at h
    rw [Option.some.inj h]
    rfl
  | none =>
    rw [hproblem, Option.none_or] at h
    cases hcells : g.cells with
    | nil =>
      simp only [spans, hcells, List.map_nil] at h
      cases h
    | cons cell rest =>
      cases hhorizontal : spanProblem? .horizontal (g.declared .horizontal) 0
          (g.spans .horizontal) with
      | some error' =>
        rw [hhorizontal, Option.some_or] at h
        rw [tracks_refused hhorizontal, Option.some.inj h]
        rfl
      | none =>
        rw [hhorizontal, Option.none_or] at h
        obtain ⟨columns, hcolumns, -⟩ := (axisSafe hhorizontal).tracks
        rw [hcolumns, tracks_refused h]
        rfl

/-- A grid with nothing wrong has nothing to place, or both axes are solved and the cells placed. -/
theorem solve_placed {g : Grid} (h : g.refusal? = none) :
    (g.cells = [] ∧ g.solve = .ok ⟨[], [], []⟩) ∨
    ∃ columns rows rects, g.tracks .horizontal = .ok columns ∧ g.tracks .vertical = .ok rows ∧
      g.cells.mapM (cellRect g.origin columns rows) = .ok rects ∧
      g.solve = .ok ⟨columns.sizes, rows.sizes, rects⟩ := by
  rw [refusal?, Option.or_eq_none_iff, Option.or_eq_none_iff] at h
  obtain ⟨hproblem, hhorizontal, hvertical⟩ := h
  rw [solve, hproblem]
  cases hcells : g.cells with
  | nil => exact .inl ⟨rfl, rfl⟩
  | cons cell rest =>
    obtain ⟨columns, hcolumns, -, hcolumn⟩ := (axisSafe hhorizontal).tracks
    obtain ⟨rows, hrows, -, hrow⟩ := (axisSafe hvertical).tracks
    have hplaced : ∀ c ∈ g.cells, ∃ rect, cellRect g.origin columns rows c = .ok rect :=
      fun c hc => cellRect_ok hcolumn hrow hc
    obtain ⟨rects, hrects⟩ := mapM_ok_of_exists hplaced
    rw [hcells] at hrects
    refine .inr ⟨columns, rows, rects, hcolumns, hrows, hrects, ?_⟩
    rw [hcolumns, hrows]
    simp only [bind, Except.bind, hrects]
    rfl

/-- The ways in which solving ends: it refuses, there is nothing to place, or both axes are solved
    and the cells placed. -/
theorem solve_cases (g : Grid) : (∃ error, g.solve = .error (.refused error)) ∨
    (g.cells = [] ∧ g.solve = .ok ⟨[], [], []⟩) ∨
    ∃ columns rows rects, g.tracks .horizontal = .ok columns ∧ g.tracks .vertical = .ok rows ∧
      g.cells.mapM (cellRect g.origin columns rows) = .ok rects ∧
      g.solve = .ok ⟨columns.sizes, rows.sizes, rects⟩ := by
  cases h : g.refusal? with
  | some error => exact .inl ⟨error, solve_refused h⟩
  | none => exact .inr (solve_placed h)

theorem solve_length {g : Grid} {solution : Solution} (h : g.solve = .ok solution) :
    solution.rects.length = g.cells.length := by
  rcases g.solve_cases with ⟨error, h'⟩ | ⟨hcells, h'⟩ | ⟨columns, rows, rects, -, -, hrects, h'⟩
  · cases h'.symm.trans h
  · cases h'.symm.trans h
    rw [hcells]
    rfl
  · cases h'.symm.trans h
    exact (of_mapM_ok hrects).1

structure Safe (g : Grid) : Prop where
  axis (axis : Axis) : spanProblem? axis (g.declared axis) 0 (g.spans axis) = none →
    g.AxisSafe axis
  no_fault (fault : Fault) : g.solve ≠ .error (.fault fault)
  rects (solution : Solution) : g.solve = .ok solution →
    solution.rects.length = g.cells.length ∧
      ∀ (k : Nat) cell, g.cells[k]? = some cell → ∃ columns rows rect,
        g.tracks .horizontal = .ok columns ∧ g.tracks .vertical = .ok rows ∧
          cellRect g.origin columns rows cell = .ok rect ∧ solution.rects[k]? = some rect

theorem solve_safe (g : Grid) : g.Safe := by
  refine ⟨fun _ h => axisSafe h, fun fault hfault => ?_, fun solution hsolution => ?_⟩
  · rcases g.solve_cases with ⟨error, h⟩ | ⟨-, h⟩ | ⟨columns, rows, rects, -, -, -, h⟩
    · rw [h] at hfault
      cases hfault
    · rw [h] at hfault
      cases hfault
    · rw [h] at hfault
      cases hfault
  · rcases g.solve_cases with ⟨error, h⟩ | ⟨hcells, h⟩ | ⟨columns, rows, rects, hc, hr, hrects, h⟩
    · rw [h] at hsolution
      cases hsolution
    · rw [h] at hsolution
      cases hsolution
      rw [hcells]
      exact ⟨rfl, by simp⟩
    · obtain rfl := Except.ok.inj (h.symm.trans hsolution)
      obtain ⟨hlength, hat⟩ := of_mapM_ok hrects
      refine ⟨hlength, fun k cell hcell => ?_⟩
      obtain ⟨rect, hrect, hk⟩ := hat k cell hcell
      exact ⟨columns, rows, rect, hc, hr, hrect, hk⟩

end Grid

end RetainedScene
