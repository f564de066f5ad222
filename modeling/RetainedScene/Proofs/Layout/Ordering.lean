import RetainedScene.Proofs.Layout.Placement
import RetainedScene.Proofs.Layout.Ranges
import RetainedScene.Proofs.Number.Zeros

/-!
# Cells keep their order

Where a cell begins comes from a running sum that has the gaps in it. How far it reaches is a sum of
sizes, to which the gaps are added as a product. The two are rounded at different steps and need not
agree to the last bit. But every step keeps the order. So cells begin in the order of their tracks, a
cell is no longer than one that covers its tracks, and a cell on a single track ends before the next.
-/

set_option autoImplicit false

namespace RetainedScene

open Scalar Binary32

/-- The cell takes up this track. -/
def CellSpan.Covers (s : CellSpan) (track : Nat) : Prop :=
  s.start.toNat ≤ track ∧ track < s.stop

theorem CellSpan.range_of_covers {s s' : CellSpan} (hpos : 0 < s.count.toNat)
    (h : ∀ track, s.Covers track → s'.Covers track) :
    s'.start.toNat ≤ s.start.toNat ∧ s.stop ≤ s'.stop := by
  have hfirst : s.Covers s.start.toNat := ⟨le_rfl, by rw [stop]; omega⟩
  have hlast : s.Covers (s.stop - 1) := ⟨by rw [stop]; omega, by rw [stop]; omega⟩
  have hstop := (h _ hlast).2
  exact ⟨(h _ hfirst).1, by omega⟩

theorem sublist_of_range {α : Type} (xs : List α) {i m j n : Nat} (hji : j ≤ i)
    (hend : i + m ≤ j + n) : ((xs.drop i).take m).Sublist ((xs.drop j).take n) := by
  obtain ⟨d, rfl⟩ := Nat.exists_eq_add_of_le hji
  rw [← List.drop_drop, List.take_drop]
  exact (List.drop_sublist ..).trans (List.take_sublist_take_left (by omega))

namespace Grid

/-! ### Offsets -/

section

variable {spacing : Float32} (hspacing : AtLeast spacing 0)

include hspacing

theorem cursor_le {sizes : List Float32} (h : ∀ size ∈ sizes, AtLeast size 0) {cursor : Float32}
    (hcursor : AtLeast cursor 0) : ∀ offset ∈ offsets spacing cursor sizes, cursor ≤ offset := by
  induction sizes generalizing cursor with
  | nil => simp [offsets]
  | cons size rest ih =>
    obtain ⟨hsize, hrest⟩ := List.forall_mem_cons.mp h
    have hstep := hsize.add_nonneg hspacing
    have hnext := hcursor.add_nonneg hstep
    intro offset hoffset
    rcases List.mem_cons.mp hoffset with rfl | hlater
    · exact le_refl hcursor.isNaN
    · exact le_trans (le_add_of_nonneg hcursor.isNaN hstep hnext.isNaN) (ih hrest hnext _ hlater)

/-- A track and the gap after it end before any later track begins. -/
theorem offset_step {sizes : List Float32} (h : ∀ size ∈ sizes, AtLeast size 0) {cursor : Float32}
    (hcursor : AtLeast cursor 0) {i j : Nat} (hij : i < j) {size x y : Float32}
    (hsize : sizes[i]? = some size) (hx : (offsets spacing cursor sizes)[i]? = some x)
    (hy : (offsets spacing cursor sizes)[j]? = some y) : x + (size + spacing) ≤ y := by
  induction sizes generalizing cursor i j with
  | nil => cases hsize
  | cons first rest ih =>
    obtain ⟨hfirst, hrest⟩ := List.forall_mem_cons.mp h
    have hnext := hcursor.add_nonneg (hfirst.add_nonneg hspacing)
    obtain ⟨j, rfl⟩ := Nat.exists_eq_succ_of_ne_zero (Nat.ne_of_gt (Nat.zero_lt_of_lt hij))
    cases i with
    | zero =>
      obtain rfl := Option.some.inj hsize
      obtain rfl := Option.some.inj hx
      exact cursor_le hspacing hrest hnext y (List.mem_of_getElem? hy)
    | succ i => exact ih hrest hnext (Nat.lt_of_succ_lt_succ hij) hsize hx hy

theorem offset_mono {sizes : List Float32} (h : ∀ size ∈ sizes, AtLeast size 0) {i j : Nat}
    (hij : i ≤ j) {x y : Float32} (hx : (offsets spacing 0 sizes)[i]? = some x)
    (hy : (offsets spacing 0 sizes)[j]? = some y) : AtLeast x 0 ∧ x ≤ y := by
  have hx0 : AtLeast x 0 :=
    atLeast_zero_iff.mpr (cursor_le hspacing h atLeast_zero x (List.mem_of_getElem? hx))
  refine ⟨hx0, ?_⟩
  rcases hij.eq_or_lt with rfl | hlt
  · obtain rfl := Option.some.inj (hx.symm.trans hy)
    exact le_refl hx0.isNaN
  · obtain ⟨hi, -⟩ := List.getElem?_eq_some_iff.mp hx
    rw [length_offsets] at hi
    have hstep := (h _ (List.getElem_mem hi)).add_nonneg hspacing
    exact le_trans (le_add_of_nonneg hx0.isNaN hstep (hx0.add_nonneg hstep).isNaN)
      (offset_step hspacing h atLeast_zero hlt (List.getElem?_eq_getElem hi) hx hy)

end

/-! ### Gaps within a cell -/

section

variable {spacing : Float32} (hfinite : spacing.isFinite = true) (hspacing : AtLeast spacing 0)

include hfinite hspacing

theorem gaps_nonneg {n : Nat} (hn : n ≤ 2 ^ 64) : AtLeast (spacing * Float32.ofNat n) 0 := by
  have hcount := (RoundsTo.ofNat n).atLeast representable_zero n.cast_nonneg
  exact (RoundsTo.mul hfinite (isFinite_ofNat hn)).atLeast representable_zero
    (mul_nonneg (hspacing.le_value hfinite) (hcount.le_value (isFinite_ofNat hn)))

theorem gaps_mono {m n : Nat} (hmn : m ≤ n) (hn : n ≤ 2 ^ 64) :
    spacing * Float32.ofNat m ≤ spacing * Float32.ofNat n := by
  have hm := isFinite_ofNat (hmn.trans hn)
  have hn := isFinite_ofNat hn
  have hcount := ofNat_mono hmn
  refine (RoundsTo.mul hfinite hm).mono (RoundsTo.mul hfinite hn) ?_
  exact mul_le_mul_of_nonneg_left ((value_le_iff hm hn).mpr hcount) (hspacing.le_value hfinite)

/-- A cell on a single track has no gap in it. -/
theorem no_gaps_le : spacing * Float32.ofNat 0 ≤ spacing := by
  have hzero : value (Float32.ofNat 0) = 0 := by rfl
  have hmost : AtMost (spacing * Float32.ofNat 0) 0 :=
    (RoundsTo.mul hfinite rfl).atMost representable_zero (by rw [hzero, mul_zero])
  exact hmost.le hspacing

end

/-! ### Places -/

/-- Tracks one after the other with the gaps between them, none of them of negative size. -/
structure Tracks.Laid (t : Tracks) : Prop where
  offsets : t.offsets = Grid.offsets t.spacing 0 t.sizes
  sizes : ∀ size ∈ t.sizes, AtLeast size 0
  finite : t.spacing.isFinite = true
  nonneg : AtLeast t.spacing 0

variable {t : Tracks} {s s' : CellSpan} {p p' : Float32 × Float32}

namespace Tracks.Laid

theorem total_nonneg (laid : t.Laid) (i n : Nat) : AtLeast (total ((t.sizes.drop i).take n)) 0 :=
  Binary32.total_nonneg fun size hsize =>
    laid.sizes size (List.mem_of_mem_drop (List.mem_of_mem_take hsize))

theorem begins (laid : t.Laid) (hp : t.place s = .ok p) (hp' : t.place s' = .ok p')
    (h : s.start ≤ s'.start) : AtLeast p.1 0 ∧ p.1 ≤ p'.1 := by
  have hx := (of_place hp).1
  have hy := (of_place hp').1
  rw [laid.offsets] at hx hy
  exact offset_mono laid.nonneg laid.sizes (UInt64.le_iff_toNat_le.mp h) hx hy

theorem reaches (laid : t.Laid) (hp : t.place s = .ok p) (hp' : t.place s' = .ok p')
    (hpos : 0 < s.count.toNat) (h : ∀ track, s.Covers track → s'.Covers track) : p.2 ≤ p'.2 := by
  obtain ⟨hstart, hstop⟩ := CellSpan.range_of_covers hpos h
  rw [CellSpan.stop, CellSpan.stop] at hstop
  have hcount : s'.count.toNat ≤ 2 ^ 64 := s'.count.toNat_lt.le
  have hsub : ((t.sizes.drop s.start.toNat).take s.count.toNat).Sublist
      ((t.sizes.drop s'.start.toNat).take s'.count.toNat) := sublist_of_range t.sizes hstart hstop
  have htotal := total_le_of_sublist hsub fun size hsize =>
    laid.sizes size (List.mem_of_mem_drop (List.mem_of_mem_take hsize))
  have hgaps := gaps_mono laid.finite laid.nonneg (m := s.count.toNat - 1)
    (n := s'.count.toNat - 1) (by omega) (by omega)
  rw [(of_place hp).2, (of_place hp').2]
  exact add_le_add_of_atLeast (laid.total_nonneg _ _)
    (gaps_nonneg laid.finite laid.nonneg (by omega)) htotal hgaps

theorem single (laid : t.Laid) (hp : t.place s = .ok p) (hone : s.count = 1) :
    ∃ size, t.sizes[s.start.toNat]? = some size ∧ AtLeast p.2 0 ∧ p.2 ≤ size + t.spacing := by
  obtain ⟨hx, hextent⟩ := of_place hp
  rw [laid.offsets] at hx
  obtain ⟨hi, -⟩ := List.getElem?_eq_some_iff.mp hx
  rw [length_offsets] at hi
  have hsingle : (t.sizes.drop s.start.toNat).take 1 = [t.sizes[s.start.toNat]] := by
    rw [List.drop_eq_getElem_cons hi]
    rfl
  rw [hone, show (1 : UInt64).toNat = 1 from rfl, hsingle] at hextent
  have hsize := laid.sizes _ (List.getElem_mem hi)
  have hgaps := gaps_nonneg laid.finite laid.nonneg (n := 0) (by omega)
  refine ⟨_, List.getElem?_eq_getElem hi, ?_⟩
  rw [hextent]
  exact ⟨hsize.add_nonneg hgaps, add_le_add_of_atLeast hsize hgaps (le_refl hsize.isNaN)
    (no_gaps_le laid.finite laid.nonneg)⟩

/-- What comes after a single track begins where the track ends, or later. -/
theorem apart (laid : t.Laid) (hp : t.place s = .ok p) (hp' : t.place s' = .ok p')
    (hone : s.count = 1) (hlt : s.start < s'.start) : p.1 + p.2 ≤ p'.1 := by
  obtain ⟨size, hsize, hlength, hle⟩ := laid.single hp hone
  have hbegin := (laid.begins hp hp (UInt64.le_refl _)).1
  have hx := (of_place hp).1
  have hy := (of_place hp').1
  rw [laid.offsets] at hx hy
  have hstep := offset_step laid.nonneg laid.sizes atLeast_zero (UInt64.lt_iff_toNat_lt.mp hlt)
    hsize hx hy
  exact le_trans (add_le_add_of_atLeast hbegin hlength (le_refl hbegin.isNaN) hle) hstep

end Tracks.Laid

variable {g : Grid} {axis : Axis} {constraints : List (Constraint Float32)}

theorem laid_of_tracks (checked : g.Checked)
    (merged : trackConstraints (trackCount (g.declared axis) (g.spans axis)) (g.spans axis) =
      .ok constraints)
    (bases : (total (constraints.map Constraint.base)).isFinite = true)
    (stretches : (total (constraints.map Constraint.stretch)).isFinite = true)
    (ht : g.tracks axis = .ok t) : t.Laid := by
  obtain ⟨fits, sizes, rfl, hsizes⟩ := of_solveAxis ht
  obtain rfl := Except.ok.inj ((trackConstraints_ok fits).symm.trans merged)
  have hspacing := atLeast_zero_iff.mpr checked.spacing_nonneg
  have hextent : Within (value (g.size.along axis)) (g.size.along axis) :=
    .of_value (checked.extent_finite axis) (checked.extent_nonneg axis) le_rfl
  have hgaps := mul_not_neg (not_lt_of_le checked.spacing_nonneg)
    (ofNat_not_neg (trackCount (g.declared axis) (g.spans axis) - 1))
  obtain ⟨sizes', hsizes', hnonneg⟩ := fillTracks_nonneg
    (fun c hc => (trackConstraint_base fits hc).1) bases stretches (value_representable _)
    (available_within (value_representable _) hextent hgaps)
  obtain rfl := Except.ok.inj (hsizes'.symm.trans hsizes)
  exact ⟨rfl, hnonneg, checked.spacing_finite, hspacing⟩

/-- How two cells lie to each other on an axis, of which the grid begins at `origin`. -/
structure InOrder (origin : Float32) (s s' : CellSpan) (p p' : Float32 × Float32) : Prop where
  begins : s.start ≤ s'.start → p.1 ≤ p'.1
  reaches : (∀ track, s.Covers track → s'.Covers track) → p.2 ≤ p'.2
  apart : (origin == 0) = true → s.count = 1 → s'.count = 1 → s.start < s'.start →
    p.1 + p.2 ≤ p'.1

theorem Tracks.Laid.inOrder (laid : t.Laid) (hpos : 0 < s.count.toNat) (hp : t.place s = .ok p)
    (hp' : t.place s' = .ok p') {origin : Float32} (horigin : origin.isFinite = true) :
    InOrder origin s s' (origin + p.1, p.2) (origin + p'.1, p'.2) where
  begins hle := by
    obtain ⟨hnonneg, hbegins⟩ := laid.begins hp hp' hle
    exact add_le_add_of_atLeast (atLeast_value horigin) hnonneg (le_refl (isNaN_of_isFinite horigin))
      hbegins
  reaches hcovers := by
    change p.2 ≤ p'.2
    exact laid.reaches hp hp' hpos hcovers
  apart hzero hone _ hlt := by
    obtain ⟨-, -, hlength, -⟩ := laid.single hp hone
    have hbegin := (laid.begins hp hp (UInt64.le_refl _)).1
    have hbegin' := (laid.begins hp' hp' (UInt64.le_refl _)).1
    have hfrom : AtLeast origin 0 := .inr ⟨horigin, (finite_of_beq_zero hzero).2.ge⟩
    have hdrop : origin + p.1 + p.2 ≤ p.1 + p.2 :=
      add_le_add_of_atLeast (hfrom.add_nonneg hbegin) hlength (zero_add_le hzero hbegin)
        (le_refl hlength.isNaN)
    exact le_trans hdrop (le_trans (laid.apart hp hp' hone hlt) (le_nonneg_add hfrom hbegin'))

theorem places_of_mem_zip {solution : Solution} (h : g.solve = .ok solution) {a : Cell × Rect}
    (ha : a ∈ g.cells.zip solution.rects) : a.1 ∈ g.cells ∧ ∀ axis, g.Places axis a.1 a.2 := by
  obtain ⟨k, hk, rfl⟩ := List.mem_iff_getElem.mp ha
  rw [List.length_zip] at hk
  have hcell : k < g.cells.length := by omega
  have hrect : k < solution.rects.length := by omega
  rw [List.getElem_zip]
  exact ⟨List.getElem_mem hcell, (places_of_solve h).2 k _ _ (List.getElem?_eq_getElem hcell)
    (List.getElem?_eq_getElem hrect)⟩

/-- On an axis where what the tracks ask for adds up to finite numbers, rounding puts no two cells
    out of order. -/
theorem solve_inOrder (g : Grid) (axis : Axis) (constraints : List (Constraint Float32))
    (merged : trackConstraints (trackCount (g.declared axis) (g.spans axis)) (g.spans axis) =
      .ok constraints)
    (bases : (total (constraints.map Constraint.base)).isFinite = true)
    (stretches : (total (constraints.map Constraint.stretch)).isFinite = true)
    (solution : Solution) (h : g.solve = .ok solution) :
    solution.rects.length = g.cells.length ∧
      ∀ a ∈ g.cells.zip solution.rects, ∀ b ∈ g.cells.zip solution.rects,
        InOrder (g.origin.along axis) (a.1.along axis) (b.1.along axis) (a.2.along axis)
          (b.2.along axis) := by
  have checked := checked_of_solve h
  refine ⟨(places_of_solve h).1, fun a ha b hb => ?_⟩
  obtain ⟨hcell, places⟩ := places_of_mem_zip h ha
  obtain ⟨t, placed, ht, hplaced, halong⟩ := places axis
  obtain ⟨t', placed', ht', hplaced', halong'⟩ := (places_of_mem_zip h hb).2 axis
  obtain rfl := Except.ok.inj (ht.symm.trans ht')
  have laid := laid_of_tracks checked merged bases stretches ht
  have hpos := (fits_of_tracks ht _ (List.mem_map_of_mem hcell)).positive
  rw [halong, halong']
  exact laid.inOrder hpos hplaced hplaced' (checked.origin_finite axis)

/-- Three columns that share the space evenly, if that were a binary fraction. Their cells are given
    from right to left, and there is a cell under two of them. -/
def thirdsGrid : Grid where
  cells := [Cell.single 0 2, Cell.single 0 1, Cell.single 0 0, (Cell.single 1 1).spanning 1 2]
  size := ⟨7, 1⟩
  spacing := 0.1
  origin := .zero
  columns := none
  rows := none

theorem thirdsGrid_inOrder : ∃ constraints solution,
    trackConstraints (trackCount (thirdsGrid.declared .horizontal) (thirdsGrid.spans .horizontal))
        (thirdsGrid.spans .horizontal) = .ok constraints ∧
      (total (constraints.map Constraint.base)).isFinite = true ∧
      (total (constraints.map Constraint.stretch)).isFinite = true ∧
      thirdsGrid.solve = .ok solution ∧ solution.rects.length = 4 ∧
      ∀ a ∈ thirdsGrid.cells.zip solution.rects, ∀ b ∈ thirdsGrid.cells.zip solution.rects,
        InOrder 0 (a.1.along .horizontal) (b.1.along .horizontal) (a.2.along .horizontal)
          (b.2.along .horizontal) := by
  have merged : trackConstraints
      (trackCount (thirdsGrid.declared .horizontal) (thirdsGrid.spans .horizontal))
      (thirdsGrid.spans .horizontal) = .ok (.replicate 3 .free) := by decide +kernel
  have bases : (total ((List.replicate 3 Constraint.free).map Constraint.base)).isFinite = true := by
    decide +kernel
  have stretches : (total ((List.replicate 3 Constraint.free).map Constraint.stretch)).isFinite =
      true := by decide +kernel
  obtain ⟨solution, hsolve, -⟩ := exists_solution (g := thirdsGrid) (b := true)
    (P := fun _ => true) (by decide +kernel)
  obtain ⟨hlength, hinOrder⟩ := solve_inOrder thirdsGrid .horizontal (.replicate 3 .free) merged
    bases stretches solution hsolve
  exact ⟨_, solution, merged, bases, stretches, hsolve, hlength, hinOrder⟩

end Grid

end RetainedScene
