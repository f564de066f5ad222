import RetainedScene.Proofs.Layout.Acceptance
import RetainedScene.Proofs.Layout.Placement

/-!
# The two axes

What a cell gets on an axis depends on this axis alone, and on no constraint of a cell that lies on
several of its tracks. Both axes are solved in one way, so that a grid with its axes exchanged has
the same rectangles with their axes exchanged.
-/

set_option autoImplicit false

namespace RetainedScene

/-- Spans that solving does not tell apart: a constraint counts on a single track only. -/
structure CellSpan.Alike (s s' : CellSpan) : Prop where
  start : s.start = s'.start
  count : s.count = s'.count
  constraint : s.count = 1 → s.constraint = s'.constraint

theorem CellSpan.Alike.refl (s : CellSpan) : s.Alike s :=
  ⟨rfl, rfl, fun _ => rfl⟩

theorem CellSpan.Alike.place_eq {s s' : CellSpan} (h : s.Alike s') (t : Grid.Tracks) :
    t.place s = t.place s' := by
  obtain ⟨start, count, c⟩ := s
  obtain ⟨start', count', c'⟩ := s'
  obtain rfl : start = start' := h.start
  obtain rfl : count = count' := h.count
  rfl

theorem Rect.ext_along {r r' : Rect} (h : ∀ axis, r.along axis = r'.along axis) : r = r' := by
  obtain ⟨hx, hwidth⟩ := Prod.mk.inj (h .horizontal)
  obtain ⟨hy, hheight⟩ := Prod.mk.inj (h .vertical)
  obtain ⟨⟨x, y⟩, width, height⟩ := r
  obtain ⟨⟨x', y'⟩, width', height'⟩ := r'
  obtain rfl : x = x' := hx
  obtain rfl : y = y' := hy
  obtain rfl : width = width' := hwidth
  obtain rfl : height = height' := hheight
  rfl

namespace Grid

variable {axis axis' : Axis} {declared declared' : Option UInt64} {spans spans' : List CellSpan}

/-! ### What the tracks of an axis depend on -/

/-- Cells that pass their checks matter by the count of tracks and by what each track is asked for. -/
theorem solveAxis_congr (fits : ∀ s ∈ spans, s.Fits declared) (fits' : ∀ s ∈ spans', s.Fits declared')
    (hcount : trackCount declared spans = trackCount declared' spans')
    (htracks : ∀ track, trackConstraint spans track = trackConstraint spans' track)
    (extent spacing : Float32) :
    solveAxis axis declared spans extent spacing =
      solveAxis axis' declared' spans' extent spacing := by
  rw [solveAxis_eq fits, solveAxis_eq fits', hcount, funext htracks]

theorem trackCount_congr (h : List.Forall₂ CellSpan.Alike spans spans') :
    trackCount declared spans = trackCount declared spans' := by
  have hfold : ∀ count : Nat, spans.foldl (fun count s => max count s.stop) count =
      spans'.foldl (fun count s => max count s.stop) count := by
    induction h with
    | nil => exact fun _ => rfl
    | cons hs _ ih =>
      intro count
      rw [List.foldl_cons, List.foldl_cons, CellSpan.stop, CellSpan.stop, hs.start, hs.count]
      exact ih _
  cases declared with
  | some count => rfl
  | none => exact hfold 0

theorem trackConstraint_congr (h : List.Forall₂ CellSpan.Alike spans spans') (track : Nat) :
    trackConstraint spans track = trackConstraint spans' track := by
  have hsingle : (spans.filter fun s => s.count == 1 && s.start.toNat == track).map
        CellSpan.constraint =
      (spans'.filter fun s => s.count == 1 && s.start.toNat == track).map CellSpan.constraint := by
    induction h with
    | nil => rfl
    | cons hs _ ih =>
      rw [List.filter_cons, List.filter_cons, ← hs.start, ← hs.count]
      split
      case isTrue hon =>
        have hone := eq_of_beq ((Bool.and_eq_true ..).mp hon).1
        rw [List.map_cons, List.map_cons, hs.constraint hone, ih]
      case isFalse => exact ih
  simp only [trackConstraint, hsingle]

/-! ### What a cell gets depends on -/

variable {g g' : Grid} {cell cell' : Cell} {r r' : Rect} {solution solution' : Solution}

theorem Places.along_eq (htracks : g.tracks axis = g'.tracks axis')
    (horigin : g.origin.along axis = g'.origin.along axis')
    (hspan : (cell.along axis).Alike (cell'.along axis')) (places : g.Places axis cell r)
    (places' : g'.Places axis' cell' r') : r.along axis = r'.along axis' := by
  obtain ⟨t, placed, ht, hplaced, halong⟩ := places
  obtain ⟨t', placed', ht', hplaced', halong'⟩ := places'
  obtain rfl : t = t' := Except.ok.inj ((ht.symm.trans htracks).trans ht')
  obtain rfl : placed = placed' :=
    Except.ok.inj ((hplaced.symm.trans (hspan.place_eq t)).trans hplaced')
  rw [halong, halong', horigin]

/-- A solution places every cell. -/
theorem exists_places (h : g.solve = .ok solution) :
    ∃ place : Cell → Rect, ∀ cell ∈ g.cells, ∀ axis, g.Places axis cell (place cell) := by
  have hplace : ∀ cell, ∃ r : Rect, cell ∈ g.cells → ∀ axis, g.Places axis cell r := by
    intro cell
    by_cases hcell : cell ∈ g.cells
    · obtain ⟨hlength, hplaces⟩ := places_of_solve h
      obtain ⟨k, hk, rfl⟩ := List.mem_iff_getElem.mp hcell
      exact ⟨_, fun _ => hplaces k _ _ (List.getElem?_eq_getElem hk)
        (List.getElem?_eq_getElem (hlength ▸ hk))⟩
    · exact ⟨.zero, fun hmem => absurd hmem hcell⟩
  choose place hplace using hplace
  exact ⟨place, hplace⟩

theorem rects_eq_map (h : g.solve = .ok solution) {place : Cell → Rect}
    (hplace : ∀ cell ∈ g.cells, ∀ axis, g.Places axis cell (place cell)) :
    solution.rects = g.cells.map place := by
  obtain ⟨hlength, hplaces⟩ := places_of_solve h
  refine List.ext_getElem (by simpa using hlength) fun k hk hk' => ?_
  rw [List.getElem_map]
  have hcell : k < g.cells.length := hlength ▸ hk
  refine Rect.ext_along fun axis => Places.along_eq rfl rfl (.refl _) (hplaces k _ _
    (List.getElem?_eq_getElem hcell) (List.getElem?_eq_getElem hk) axis) ?_
  exact hplace _ (List.getElem_mem hcell) axis

/-! ### One axis without the other -/

/-- Grids that are the same as far as one axis is concerned. Everything that belongs to the other
    axis may differ, and so may constraints of cells on several tracks. -/
structure AgreeOn (axis : Axis) (g g' : Grid) : Prop where
  extent : g.size.along axis = g'.size.along axis
  spacing : g.spacing = g'.spacing
  origin : g.origin.along axis = g'.origin.along axis
  declared : g.declared axis = g'.declared axis
  cells : List.Forall₂ (fun cell cell' => (cell.along axis).Alike (cell'.along axis))
    g.cells g'.cells

theorem AgreeOn.tracks_eq (agree : AgreeOn axis g g')
    (fits : ∀ s ∈ g.spans axis, s.Fits (g.declared axis))
    (fits' : ∀ s ∈ g'.spans axis, s.Fits (g'.declared axis)) :
    g.tracks axis = g'.tracks axis := by
  have hspans : List.Forall₂ CellSpan.Alike (g.spans axis) (g'.spans axis) :=
    List.forall₂_map_left_iff.mpr (List.forall₂_map_right_iff.mpr agree.cells)
  rw [tracks, tracks, agree.extent, agree.spacing]
  refine solveAxis_congr fits fits' ?_ (trackConstraint_congr hspans) _ _
  rw [agree.declared]
  exact trackCount_congr hspans

/-- Nothing on the other axis changes where a cell begins on this one, nor how far it reaches. -/
theorem solve_noninterfering (axis : Axis) (g g' : Grid) (agree : AgreeOn axis g g')
    (solution solution' : Solution) (h : g.solve = .ok solution) (h' : g'.solve = .ok solution') :
    solution.rects.length = g.cells.length ∧
      solution.rects.map (Rect.along · axis) = solution'.rects.map (Rect.along · axis) := by
  obtain ⟨hlength, hplaces⟩ := places_of_solve h
  obtain ⟨hlength', hplaces'⟩ := places_of_solve h'
  have htracks := agree.tracks_eq ((accepted_iff.mp ⟨_, h⟩).2 axis) ((accepted_iff.mp ⟨_, h'⟩).2 axis)
  have hcells := agree.cells.length_eq
  refine ⟨hlength, List.ext_getElem (by simp [hlength, hlength', hcells]) fun k hk hk' => ?_⟩
  rw [List.length_map] at hk hk'
  rw [List.getElem_map, List.getElem_map]
  have hcell : k < g.cells.length := hlength ▸ hk
  have hcell' : k < g'.cells.length := hlength' ▸ hk'
  have places := hplaces k _ _ (List.getElem?_eq_getElem hcell) (List.getElem?_eq_getElem hk) axis
  have places' :=
    hplaces' k _ _ (List.getElem?_eq_getElem hcell') (List.getElem?_eq_getElem hk') axis
  exact places.along_eq htracks agree.origin (agree.cells.get hcell hcell') places'

/-- The form with all its cells on other rows, taller, and with a title that wants to be wider than
    both of its columns. -/
def tallForm : Grid where
  cells := [((Cell.single 7 0).spanning 2 2).withHorizontal (.fixed 500),
    ((Cell.single 0 0).withHorizontal (.fixed 80)).withVertical (.preferring 90),
    (Cell.single 3 1).spanning 4 1]
  size := ⟨320, 900⟩
  spacing := 4
  origin := ⟨-10, 0⟩
  columns := none
  rows := some 12

theorem tallForm_agreeOn : AgreeOn .horizontal formGrid tallForm where
  extent := by decide +kernel
  spacing := by decide +kernel
  origin := by decide +kernel
  declared := by decide +kernel
  cells := by
    refine .cons ⟨?_, ?_, fun hone => absurd hone ?_⟩ (.cons ⟨?_, ?_, fun _ => ?_⟩
      (.cons ⟨?_, ?_, fun _ => ?_⟩ .nil)) <;> decide +kernel

theorem tallForm_noninterfering : AgreeOn .horizontal formGrid tallForm ∧
    ∃ solution solution', formGrid.solve = .ok solution ∧ tallForm.solve = .ok solution' ∧
      solution.rects.map (Rect.along · .horizontal) = [(-10, 320), (-10, 80), (74, 236)] ∧
      solution'.rects.map (Rect.along · .horizontal) = [(-10, 320), (-10, 80), (74, 236)] ∧
      solution'.rects.map (Rect.along · .vertical) ≠ solution.rects.map (Rect.along · .vertical) := by
  obtain ⟨solution, hsolve, hwidths⟩ := exists_solution (g := formGrid) (b := true)
    (P := fun s => s.rects.map (Rect.along · .horizontal) = [(-10, 320), (-10, 80), (74, 236)] ∧
      s.rects.map (Rect.along · .vertical) = [(5, 24), (33, 172), (33, 172)]) (by decide +kernel)
  obtain ⟨solution', hsolve', hheights⟩ := exists_solution (g := tallForm) (b := true)
    (P := fun s => s.rects.map (Rect.along · .vertical) ≠ [(5, 24), (33, 172), (33, 172)])
    (by decide +kernel)
  obtain ⟨hwidths, hheights'⟩ := of_decide_eq_true hwidths
  refine ⟨tallForm_agreeOn, solution, solution', hsolve, hsolve', hwidths, ?_, ?_⟩
  · exact (solve_noninterfering .horizontal formGrid tallForm tallForm_agreeOn solution solution'
      hsolve hsolve').2.symm.trans hwidths
  · rw [hheights']
    exact of_decide_eq_true hheights

end Grid

/-! ### Exchanged axes -/

def Axis.other : Axis → Axis
  | .horizontal => .vertical
  | .vertical => .horizontal

def Vec2.transpose (v : Vec2) : Vec2 := ⟨v.y, v.x⟩

def Rect.transpose (r : Rect) : Rect := ⟨r.origin.transpose, r.size.transpose⟩

def Cell.transpose (c : Cell) : Cell := ⟨c.rows, c.columns⟩

def Grid.transpose (g : Grid) : Grid where
  cells := g.cells.map Cell.transpose
  size := g.size.transpose
  spacing := g.spacing
  origin := g.origin.transpose
  columns := g.rows
  rows := g.columns

theorem Vec2.along_transpose (v : Vec2) (axis : Axis) :
    v.transpose.along axis = v.along axis.other := by
  cases axis <;> rfl

theorem Rect.along_transpose (r : Rect) (axis : Axis) :
    r.transpose.along axis = r.along axis.other := by
  cases axis <;> rfl

theorem Cell.along_transpose (c : Cell) (axis : Axis) :
    c.transpose.along axis = c.along axis.other := by
  cases axis <;> rfl

namespace Grid

variable {axis : Axis} {g : Grid} {cell : Cell} {r : Rect}

theorem declared_transpose (g : Grid) (axis : Axis) :
    g.transpose.declared axis = g.declared axis.other := by
  cases axis <;> rfl

theorem spans_transpose (g : Grid) (axis : Axis) :
    g.transpose.spans axis = g.spans axis.other := by
  rw [spans, spans, transpose, List.map_map]
  exact List.map_congr_left fun cell _ => cell.along_transpose axis

theorem tracks_transpose (fits : ∀ s ∈ g.spans axis.other, s.Fits (g.declared axis.other)) :
    g.transpose.tracks axis = g.tracks axis.other := by
  rw [tracks, tracks, declared_transpose, spans_transpose]
  rw [show g.transpose.size.along axis = _ from g.size.along_transpose axis]
  exact solveAxis_congr fits fits rfl (fun _ => rfl) _ _

theorem Places.transpose (places : g.Places axis.other cell r) :
    g.transpose.Places axis cell.transpose r.transpose := by
  obtain ⟨t, placed, ht, hplaced, halong⟩ := places
  refine ⟨t, placed, (tracks_transpose (fits_of_tracks ht)).trans ht, ?_, ?_⟩
  · rw [Cell.along_transpose]
    exact hplaced
  · rw [Rect.along_transpose, halong, Grid.transpose, Vec2.along_transpose]

theorem transpose_transpose (g : Grid) : g.transpose.transpose = g := by
  have hcells : (g.cells.map Cell.transpose).map Cell.transpose = g.cells := by
    rw [List.map_map]
    exact List.map_id g.cells
  exact congrArg (fun cells => { g with cells }) hcells

theorem Checked.transpose (h : g.Checked) : g.transpose.Checked where
  extent_finite axis := by
    rw [Grid.transpose, Vec2.along_transpose]
    exact h.extent_finite axis.other
  extent_nonneg axis := by
    rw [Grid.transpose, Vec2.along_transpose]
    exact h.extent_nonneg axis.other
  spacing_finite := h.spacing_finite
  spacing_nonneg := h.spacing_nonneg
  origin_finite axis := by
    rw [Grid.transpose, Vec2.along_transpose]
    exact h.origin_finite axis.other

theorem accepted_transpose (h : ∃ solution, g.solve = .ok solution) :
    ∃ solution, g.transpose.solve = .ok solution := by
  obtain ⟨checked, fits⟩ := accepted_iff.mp h
  refine accepted_iff.mpr ⟨checked.transpose, fun axis => ?_⟩
  rw [spans_transpose, declared_transpose]
  exact fits axis.other

theorem rects_transpose {solution solution' : Solution} (h : g.solve = .ok solution)
    (h' : g.transpose.solve = .ok solution') :
    solution'.rects = solution.rects.map Rect.transpose := by
  obtain ⟨place, hplace⟩ := exists_places h
  have hplace' : ∀ cell ∈ g.transpose.cells, ∀ axis,
      g.transpose.Places axis cell (place cell.transpose).transpose := by
    intro cell hcell axis
    obtain ⟨cell, hmem, rfl⟩ := List.mem_map.mp hcell
    exact (hplace cell hmem axis.other).transpose
  rw [rects_eq_map h hplace, rects_eq_map h' hplace', Grid.transpose, List.map_map, List.map_map]
  rfl

/-- A grid with its axes exchanged is accepted if the grid is, and has the same rectangles with
    their axes exchanged. -/
theorem solve_transpose (g : Grid) : g.transpose.solve.toOption.map Solution.rects =
    g.solve.toOption.map fun solution => solution.rects.map Rect.transpose := by
  cases h : g.solve with
  | ok solution =>
    obtain ⟨solution', h'⟩ := accepted_transpose ⟨solution, h⟩
    rw [h']
    exact congrArg some (rects_transpose h h')
  | error failure =>
    cases h' : g.transpose.solve with
    | error failure' => rfl
    | ok solution' =>
      obtain ⟨solution, hsolution⟩ := accepted_transpose ⟨solution', h'⟩
      rw [transpose_transpose, h] at hsolution
      cases hsolution

end Grid

end RetainedScene
