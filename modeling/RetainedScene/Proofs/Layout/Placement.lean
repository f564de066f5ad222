import RetainedScene.Proofs.Layout.Safety
import RetainedScene.Proofs.Layout.Sizes

/-!
# Placed cells

A cell never gets a negative width or height. Where lengths are moderate it also lies at a finite
place and has a finite size, on any number of tracks. Nothing guards against lengths so large that
they add up to infinity.
-/

set_option autoImplicit false

namespace RetainedScene

open Binary32 Scalar

/-- Where a rectangle begins on an axis, and how far it reaches. -/
def Rect.along (r : Rect) (axis : Axis) : Float32 × Float32 :=
  (r.origin.along axis, r.size.along axis)

structure Rect.Drawable (r : Rect) : Prop where
  finite : r.isFinite = true
  width : 0 ≤ r.size.x
  height : 0 ≤ r.size.y

namespace Grid

theorem checked_of_solve {g : Grid} {solution : Solution} (h : g.solve = .ok solution) :
    g.Checked := by
  cases hproblem : g.problem? with
  | none => exact checked_of_problem? hproblem
  | some error =>
    rw [solve, hproblem] at h
    cases h

theorem exists_solution {g : Grid} {P : Solution → Bool} {b : Bool}
    (h : g.solve.toOption.map P = some b) : ∃ solution, g.solve = .ok solution ∧ P solution = b := by
  cases hsolve : g.solve with
  | error failure =>
    rw [hsolve] at h
    cases h
  | ok solution =>
    rw [hsolve] at h
    exact ⟨solution, rfl, Option.some.inj h⟩

theorem of_cellRect {origin : Vec2} {columns rows : Tracks} {c : Cell} {r : Rect}
    (h : cellRect origin columns rows c = .ok r) : ∃ column row,
      columns.place c.columns = .ok column ∧ rows.place c.rows = .ok row ∧
        r = ⟨⟨origin.x + column.1, origin.y + row.1⟩, ⟨column.2, row.2⟩⟩ := by
  unfold cellRect at h
  cases hcolumn : columns.place c.columns with
  | error fault =>
    rw [hcolumn] at h
    cases h
  | ok column =>
    cases hrow : rows.place c.rows with
    | error fault =>
      rw [hcolumn, hrow] at h
      cases h
    | ok row =>
      rw [hcolumn, hrow] at h
      exact ⟨column, row, rfl, rfl, (Except.ok.inj h).symm⟩

/-- On an axis, a rectangle lies where the solved tracks have the place of a cell. -/
def Places (g : Grid) (axis : Axis) (cell : Cell) (r : Rect) : Prop :=
  ∃ t placed, g.tracks axis = .ok t ∧ t.place (cell.along axis) = .ok placed ∧
    r.along axis = (g.origin.along axis + placed.1, placed.2)

/-- Every cell has its rectangle, which is placed on both axes in the same way. -/
theorem places_of_solve {g : Grid} {solution : Solution} (h : g.solve = .ok solution) :
    solution.rects.length = g.cells.length ∧ ∀ (k : Nat) cell r, g.cells[k]? = some cell →
      solution.rects[k]? = some r → ∀ axis, g.Places axis cell r := by
  rcases g.solve_cases with ⟨error, hrefused⟩ | ⟨hcells, hempty⟩ |
    ⟨columns, rows, rects, hcolumns, hrows, hrects, hok⟩
  · cases hrefused.symm.trans h
  · obtain rfl := Except.ok.inj (hempty.symm.trans h)
    simp [hcells]
  · obtain rfl := Except.ok.inj (hok.symm.trans h)
    obtain ⟨hlength, hat⟩ := of_mapM_ok hrects
    refine ⟨hlength, fun k cell r hcell hr axis => ?_⟩
    obtain ⟨rect, hrect, hsome⟩ := hat k cell hcell
    obtain rfl := Option.some.inj (hr.symm.trans hsome)
    obtain ⟨column, row, hcolumn, hrow, rfl⟩ := of_cellRect hrect
    cases axis with
    | horizontal => exact ⟨columns, column, hcolumns, hcolumn, rfl⟩
    | vertical => exact ⟨rows, row, hrows, hrow, rfl⟩

theorem of_solve {g : Grid} {solution : Solution} (h : g.solve = .ok solution) {r : Rect}
    (hr : r ∈ solution.rects) : ∃ cell ∈ g.cells, ∀ axis, ∃ t placed, g.tracks axis = .ok t ∧
      t.place (cell.along axis) = .ok placed ∧
      r.origin.along axis = g.origin.along axis + placed.1 ∧ r.size.along axis = placed.2 := by
  obtain ⟨hlength, hplaces⟩ := places_of_solve h
  obtain ⟨k, hk, rfl⟩ := List.mem_iff_getElem.mp hr
  have hcell : k < g.cells.length := hlength ▸ hk
  refine ⟨g.cells[k], List.getElem_mem hcell, fun axis => ?_⟩
  obtain ⟨t, placed, ht, hplaced, halong⟩ := hplaces k _ _ (List.getElem?_eq_getElem hcell)
    (List.getElem?_eq_getElem hk) axis
  obtain ⟨horigin, hsize⟩ := Prod.mk.inj halong
  exact ⟨t, placed, ht, hplaced, horigin, hsize⟩

variable {axis : Axis} {declared : Option UInt64} {spans : List CellSpan} {t : Tracks}
  {extent spacing : Float32}

/-- The constraints of the tracks, and the space that the gaps leave for them. -/
theorem of_solveAxis (h : solveAxis axis declared spans extent spacing = .ok t) :
    (∀ s ∈ spans, s.Fits declared) ∧ ∃ sizes, t = ⟨sizes, offsets spacing 0 sizes, spacing⟩ ∧
      fillTracks ((List.range (trackCount declared spans)).map (trackConstraint spans))
        (greater (extent - spacing * Float32.ofNat (trackCount declared spans - 1)) 0) =
          .ok sizes := by
  have fits : ∀ s ∈ spans, s.Fits declared := by
    cases hproblem : spanProblem? axis declared 0 spans with
    | none => exact fits_of_spanProblem? hproblem
    | some error =>
      rw [solveAxis, hproblem] at h
      cases h
  refine ⟨fits, ?_⟩
  rw [solveAxis_eq fits] at h
  cases hsizes : fillTracks ((List.range (trackCount declared spans)).map (trackConstraint spans))
      (greater (extent - spacing * Float32.ofNat (trackCount declared spans - 1)) 0) with
  | error fault =>
    rw [hsizes] at h
    cases h
  | ok sizes =>
    rw [hsizes] at h
    exact ⟨sizes, (Except.ok.inj h).symm, rfl⟩

theorem fits_of_tracks {g : Grid} (h : g.tracks axis = .ok t) :
    ∀ s ∈ g.spans axis, s.Fits (g.declared axis) :=
  (of_solveAxis h).1

theorem of_place {s : CellSpan} {placed : Float32 × Float32} (h : t.place s = .ok placed) :
    t.offsets[s.start.toNat]? = some placed.1 ∧
      placed.2 = total ((t.sizes.drop s.start.toNat).take s.count.toNat) +
        t.spacing * Float32.ofNat (s.count.toNat - 1) := by
  unfold Tracks.place at h
  cases hoffset : t.offsets[s.start.toNat]? with
  | none =>
    rw [hoffset] at h
    cases h
  | some offset =>
    rw [hoffset] at h
    dsimp only at h
    split at h
    · cases h
    · obtain rfl := Except.ok.inj h
      exact ⟨rfl, rfl⟩

/-! ### Extents are not negative -/

theorem ofNat_not_neg (n : Nat) : ¬ Float32.ofNat n < 0 :=
  not_lt_of_le (ofNat_nonneg n)

theorem extent_not_neg (h : solveAxis axis declared spans extent spacing = .ok t)
    (hspacing : 0 ≤ spacing) {s : CellSpan} {placed : Float32 × Float32}
    (hplaced : t.place s = .ok placed) : ¬ placed.2 < 0 := by
  obtain ⟨fits, sizes, rfl, hsizes⟩ := of_solveAxis h
  have hsolvable := fun c hc => (trackConstraint_base fits (c := c) hc).1
  obtain ⟨sizes', hsizes', hnonneg⟩ := fillTracks_not_neg hsolvable
    (greater (extent - spacing * Float32.ofNat (trackCount declared spans - 1)) 0)
  obtain rfl := Except.ok.inj (hsizes'.symm.trans hsizes)
  rw [(of_place hplaced).2]
  refine add_not_neg (total_not_neg fun size hsize => hnonneg size ?_)
    (mul_not_neg (not_lt_of_le hspacing) (ofNat_not_neg _))
  exact List.mem_of_mem_drop (List.mem_of_mem_take hsize)

/-! ### Moderate lengths -/

/-- Lengths are at most 2ᵏ, and the products of two of the numbers of a grid at most 2¹²⁷. Only the
    constraints of cells on a single track count. -/
structure Moderate (k : Nat) (g : Grid) : Prop where
  extent (axis : Axis) : value (g.size.along axis) ≤ 2 ^ k
  spacing : value g.spacing ≤ 2 ^ k
  origin (axis : Axis) : |value (g.origin.along axis)| ≤ 2 ^ 126
  constraint (axis : Axis) : ∀ s ∈ g.spans axis, s.count = 1 →
    value s.constraint.min ≤ 2 ^ k ∧ value s.constraint.preferred ≤ 2 ^ k ∧
      value s.constraint.stretch ≤ 2 ^ (127 - k)
  span (axis : Axis) : ∀ s ∈ g.spans axis, s.count.toNat ≤ 2 ^ (126 - k)

variable {k : Nat}

theorem trackConstraint_modest
    (h : ∀ s ∈ spans, s.count = 1 → s.constraint.Modest k) (track : Nat) :
    (trackConstraint spans track).Modest k := by
  have hone : Within (2 ^ (127 - k)) 1 :=
    .of_value rfl (by decide) (value_one.trans_le (one_le_pow₀ (by norm_num)))
  have hfree : Constraint.free.Modest k :=
    ⟨.zero (by positivity), .zero (by positivity), hone⟩
  obtain ⟨c, hc, heq⟩ := trackConstraint_eq (P := Constraint.Modest k) hfree
    (fun a b ha hb => ⟨Constraint.greater_of (P := Within (2 ^ k)) ha.min hb.min,
      Constraint.greater_of (P := Within (2 ^ k)) ha.preferred hb.preferred,
      Constraint.greater_of (P := Within (2 ^ (127 - k))) ha.stretch hb.stretch⟩) h track
  rw [heq]
  exact ⟨hc.min, hc.preferred, hc.stretch⟩

theorem available_within {q : ℚ} (hq : Representable q) (hextent : Within q extent)
    {gaps : Float32} (hgaps : ¬ gaps < 0) : Within q (greater (extent - gaps) 0) := by
  rcases greater_cases (extent - gaps) (b := 0) rfl with ⟨hpos, heq⟩ | heq <;> rw [heq]
  · have hnumber : gaps.isNaN = false := by
      by_contra hnan
      have hnumber := (lt_iff_rank.mp hpos).2.1
      rw [isNaN_sub extent (Bool.not_eq_false _ ▸ hnan)] at hnumber
      cases hnumber
    have hgaps' : AtLeast gaps 0 :=
      atLeast_zero_iff.mpr (le_of_not_lt hnumber (by decide) hgaps)
    exact ⟨atLeast_zero_iff.mpr (le_of_lt hpos), hextent.atMost.sub hgaps' hq (by simp)⟩
  · exact .zero (hextent.value_nonneg.trans hextent.value_le)

theorem offsets_within (hk : k ≤ 79) (hspacing : Within (2 ^ k) spacing) {sizes : List Float32}
    (h : ∀ size ∈ sizes, Within (2 ^ (k + 24)) size) {cursor : Float32}
    (hcursor : Within (2 ^ (k + 24 + 24)) cursor) :
    ∀ offset ∈ offsets spacing cursor sizes, Within (2 ^ (k + 24 + 24)) offset := by
  induction sizes generalizing cursor with
  | nil => simp [offsets]
  | cons size rest ih =>
    have hstep : Within (2 ^ (k + 24)) (size + spacing) :=
      (h size List.mem_cons_self).add_half (by omega) hspacing
    intro offset hoffset
    rcases List.mem_cons.mp hoffset with rfl | hlater
    · exact hcursor
    · exact ih (fun size hsize => h size (List.mem_cons_of_mem _ hsize))
        (hcursor.add_half (by omega) hstep) offset hlater

theorem place_within (hk : k ≤ 78) (h : solveAxis axis declared spans extent spacing = .ok t)
    (hextent : Within (2 ^ k) extent) (hspacing : Within (2 ^ k) spacing)
    (hmodest : ∀ s ∈ spans, s.count = 1 → s.constraint.Modest k) {s : CellSpan}
    (hcount : s.count.toNat ≤ 2 ^ (126 - k)) {placed : Float32 × Float32}
    (hplaced : t.place s = .ok placed) : Within (2 ^ 126) placed.1 ∧ Within (2 ^ 127) placed.2 := by
  obtain ⟨fits, sizes, rfl, hsizes⟩ := of_solveAxis h
  have hsolvable := fun c hc => (trackConstraint_base fits (c := c) hc).1
  have hlengths : ∀ c ∈ (List.range (trackCount declared spans)).map (trackConstraint spans),
      c.Modest k := by
    intro c hc
    obtain ⟨track, -, rfl⟩ := List.mem_map.mp hc
    exact trackConstraint_modest hmodest track
  have hgaps := mul_not_neg (not_lt_of_le (atLeast_zero_iff.mp hspacing.nonneg))
    (ofNat_not_neg (trackCount declared spans - 1))
  obtain ⟨sizes', hsizes', hwithin⟩ := fillTracks_within hk hsolvable hlengths
    (available_within (representable_two_pow (by omega)) hextent hgaps)
  obtain rfl := Except.ok.inj (hsizes'.symm.trans hsizes)
  have hlimit : (2 : ℚ) ^ (k + 24 + 24) ≤ 2 ^ 126 := pow_le_pow_right₀ (by norm_num) (by omega)
  obtain ⟨hoffset, hsize⟩ := of_place hplaced
  refine ⟨(offsets_within (by omega) hspacing hwithin (.zero (by positivity)) _
    (List.mem_of_getElem? hoffset)).mono hlimit, ?_⟩
  have htotal : Within (2 ^ (k + 24 + 24)) (total ((sizes'.drop s.start.toNat).take s.count.toNat)) :=
    Within.total (by omega) fun size hsize =>
      hwithin size (List.mem_of_mem_drop (List.mem_of_mem_take hsize))
  have hinner : Within (2 ^ 126) (spacing * Float32.ofNat (s.count.toNat - 1)) := by
    have hpow : (2 : ℚ) ^ k * 2 ^ (126 - k) = 2 ^ 126 := by
      rw [← pow_add, Nat.add_sub_of_le (by omega)]
    exact hspacing.mul (ofNat_within (by omega) ((Nat.sub_le ..).trans hcount))
      (representable_two_pow (by norm_num)) hpow.le
  rw [hsize]
  exact (htotal.mono hlimit).add hinner (representable_two_pow le_rfl) (by norm_num)

theorem Moderate.place_within {g : Grid} (hg : g.Moderate k) (checked : g.Checked) (hk : k ≤ 78)
    (ht : g.tracks axis = .ok t) {s : CellSpan} (hs : s ∈ g.spans axis)
    {placed : Float32 × Float32} (hplaced : t.place s = .ok placed) :
    Within (2 ^ 126) placed.1 ∧ Within (2 ^ 127) placed.2 := by
  have hextent := Within.of_value (checked.extent_finite axis) (checked.extent_nonneg axis)
    (hg.extent axis)
  have hspacing := Within.of_value checked.spacing_finite checked.spacing_nonneg hg.spacing
  refine Grid.place_within hk ht hextent hspacing (fun u hu hone => ?_) (hg.span axis s hs) hplaced
  obtain ⟨hmin, hpreferred, hstretch⟩ := hg.constraint axis u hu hone
  have proper := (fits_of_tracks ht u hu).constraint.toProper
  exact ⟨.of_value proper.min_finite proper.min_nonneg hmin,
    .of_value proper.preferred_finite proper.preferred_nonneg hpreferred,
    .of_value proper.stretch_finite proper.stretch_nonneg hstretch⟩

theorem isFinite_origin_add {x offset : Float32} (hx : x.isFinite = true)
    (hvalue : |value x| ≤ 2 ^ 126) (hoffset : Within (2 ^ 126) offset) :
    (x + offset).isFinite = true := by
  obtain ⟨hlow, hhigh⟩ := abs_le.mp hvalue
  have hmost : AtMost (x + offset) (2 ^ 127) :=
    AtMost.add (.inr ⟨hx, hhigh⟩) hoffset.atMost (representable_two_pow le_rfl) (by norm_num)
  have hleast : AtLeast (x + offset) (-2 ^ 126) :=
    AtLeast.add (.inr ⟨hx, hlow⟩) hoffset.nonneg (representable_two_pow (by norm_num)).neg (by simp)
  exact hmost.isFinite hleast

theorem solve_drawable (g : Grid) (solution : Solution) (h : g.solve = .ok solution) :
    (∀ r ∈ solution.rects, ¬ r.size.x < 0 ∧ ¬ r.size.y < 0) ∧
      ∀ k ≤ 78, g.Moderate k → ∀ r ∈ solution.rects, r.Drawable := by
  have checked := checked_of_solve h
  constructor
  · intro r hr
    obtain ⟨cell, -, placed⟩ := of_solve h hr
    have hextent : ∀ axis, ¬ r.size.along axis < 0 := by
      intro axis
      obtain ⟨t, place, ht, hplace, -, hsize⟩ := placed axis
      rw [hsize]
      exact extent_not_neg ht checked.spacing_nonneg hplace
    exact ⟨hextent .horizontal, hextent .vertical⟩
  · intro k hk hg r hr
    obtain ⟨cell, hcell, placed⟩ := of_solve h hr
    have hfinite : ∀ axis, (r.origin.along axis).isFinite = true ∧
        Within (2 ^ 127) (r.size.along axis) := by
      intro axis
      obtain ⟨t, place, ht, hplace, horigin, hsize⟩ := placed axis
      obtain ⟨hoffset, hextent⟩ :=
        hg.place_within checked hk ht (List.mem_map_of_mem hcell) hplace
      rw [horigin, hsize]
      exact ⟨isFinite_origin_add (checked.origin_finite axis) (hg.origin axis) hoffset, hextent⟩
    obtain ⟨hx, hwidth⟩ := hfinite .horizontal
    obtain ⟨hy, hheight⟩ := hfinite .vertical
    refine ⟨?_, atLeast_zero_iff.mp hwidth.nonneg, atLeast_zero_iff.mp hheight.nonneg⟩
    unfold Rect.isFinite Vec2.isFinite
    simp only [Bool.and_eq_true]
    exact ⟨⟨hx, hy⟩, hwidth.isFinite, hheight.isFinite⟩

/-- A title across two columns, a label of fixed width and a field that takes the rest. -/
def formGrid : Grid where
  cells := [((Cell.single 0 0).spanning 1 2).withVertical (.fixed 24),
    (Cell.single 1 0).withHorizontal (.fixed 80), Cell.single 1 1]
  size := ⟨320, 200⟩
  spacing := 4
  origin := ⟨-10, 5⟩
  columns := none
  rows := none

theorem formGrid_moderate : formGrid.Moderate 9 where
  extent axis := by cases axis <;> decide +kernel
  spacing := by decide +kernel
  origin axis := by cases axis <;> decide +kernel
  constraint axis := by cases axis <;> decide +kernel
  span axis := by cases axis <;> decide +kernel

theorem formGrid_drawable : formGrid.Moderate 9 ∧ ∃ solution, formGrid.solve = .ok solution ∧
    solution.rects.length = 3 ∧ ∀ r ∈ solution.rects, r.Drawable := by
  obtain ⟨solution, hsolve, hlength⟩ := exists_solution (g := formGrid) (b := true)
    (P := fun s => s.rects.length == 3) (by decide +kernel)
  exact ⟨formGrid_moderate, solution, hsolve, eq_of_beq hlength,
    (solve_drawable formGrid solution hsolve).2 9 (by norm_num) formGrid_moderate⟩

/-- Two columns that are large but finite, and a cell that lies on both. -/
def wideGrid : Grid where
  cells := [(Cell.single 0 0).withHorizontal (.fixed 3e38),
    (Cell.single 0 1).withHorizontal (.fixed 3e38), (Cell.single 1 0).spanning 1 2]
  size := ⟨100, 100⟩
  spacing := 0
  origin := .zero
  columns := none
  rows := none

/-- A track whose stretch is so large that its share is infinite before it is divided. -/
def steepGrid : Grid where
  cells := [(Cell.single 0 0).withHorizontal { Constraint.free with stretch := 1e38 }]
  size := ⟨100, 100⟩
  spacing := 0
  origin := .zero
  columns := none
  rows := none

theorem overflow_not_drawable :
    (∃ solution, wideGrid.solve = .ok solution ∧ ∃ r ∈ solution.rects, ¬ r.Drawable) ∧
      ∃ solution, steepGrid.solve = .ok solution ∧ ∃ r ∈ solution.rects, ¬ r.Drawable := by
  have infinite : ∀ {g : Grid},
      g.solve.toOption.map (fun s => s.rects.all Rect.isFinite) = some false →
      ∃ solution, g.solve = .ok solution ∧ ∃ r ∈ solution.rects, ¬ r.Drawable := by
    intro g h
    obtain ⟨solution, hsolve, hfinite⟩ := exists_solution h
    obtain ⟨r, hr, hinfinite⟩ := List.all_eq_false.mp hfinite
    exact ⟨solution, hsolve, r, hr, fun drawable => hinfinite drawable.finite⟩
  exact ⟨infinite (by decide +kernel), infinite (by decide +kernel)⟩

end Grid

end RetainedScene
