import RetainedScene.Proofs.Gallery.Areas
import RetainedScene.Proofs.Gallery.Packing
import RetainedScene.Proofs.Layout.Acceptance
import RetainedScene.Proofs.Path.Acceptance

/-!
# Arranging a gallery

Only the extent of the grid can make an arrangement fail, and it fails before anything but the
header is placed. An arrangement that does not fail places every item, wherever the items were.
-/

set_option autoImplicit false

namespace RetainedScene

open Binary32

def Rectangle.unplaced (r : Rectangle) : Rectangle :=
  { r with geometry := .zero }

def Text.unplaced (t : Text) : Text :=
  { t with geometry := .zero }

def Tile.unplaced (t : Tile) : Tile :=
  { t with frame := t.frame.unplaced, caption := t.caption.unplaced }

namespace Gallery

/-- The gallery as if nothing had been placed yet. -/
def unplaced (g : Gallery) : Gallery where
  background := g.background.unplaced
  title := g.title.unplaced
  tiles := { g.tiles with instances := g.tiles.instances.map Tile.unplaced }
  ring := { g.ring with geometry := .zero, points := [] }
  dots := { g.dots with instances := g.dots.instances.map Rectangle.unplaced }

section

variable {α β γ : Type} {place : α → β → α} {xs : List α} {ys : List β}

theorem map_placeEach {look : α → γ} (hlook : ∀ a b, look (place a b) = look a) :
    (placeEach place xs ys).map look = xs.map look := by
  induction xs generalizing ys with
  | nil => rfl
  | cons x rest ih =>
    cases ys with
    | nil => rfl
    | cons y more => exact congrArg₂ List.cons (hlook x y) ih

theorem length_placeEach : (placeEach place xs ys).length = xs.length := by
  have hmap : (placeEach place xs ys).map (fun _ => ()) = xs.map fun _ => () :=
    map_placeEach fun _ _ => rfl
  simpa using congrArg List.length hmap

theorem mem_placeEach (hlength : ys.length = xs.length) {c : α} (hc : c ∈ placeEach place xs ys) :
    ∃ a ∈ xs, ∃ b ∈ ys, c = place a b := by
  induction xs generalizing ys with
  | nil => cases hc
  | cons x rest ih =>
    cases ys with
    | nil => cases hlength
    | cons y more =>
      rcases List.mem_cons.mp hc with rfl | hc
      · exact ⟨x, List.mem_cons_self, y, List.mem_cons_self, rfl⟩
      · obtain ⟨a, ha, b, hb, heq⟩ := ih (Nat.succ.inj hlength) hc
        exact ⟨a, List.mem_cons_of_mem _ ha, b, List.mem_cons_of_mem _ hb, heq⟩

/-- Nothing is left of where things were, if each of them is given a place. -/
theorem placeEach_map {forget : α → α} (hforget : ∀ a b, place (forget a) b = place a b)
    (hlength : ys.length = xs.length) :
    placeEach place (xs.map forget) ys = placeEach place xs ys := by
  induction xs generalizing ys with
  | nil => rfl
  | cons x rest ih =>
    cases ys with
    | nil => cases hlength
    | cons y more => exact congrArg₂ List.cons (hforget x y) (ih (Nat.succ.inj hlength))

end

variable {f : Circle.Functions} {g h : Gallery} {area : Rect} {size : Vec2} {rects : List Rect}

/-! ### What a solution is used for -/

def settleTiles (g : Gallery) (rects : List Rect) : Gallery :=
  { g with tiles := { g.tiles with instances := placeEach placeTile g.tiles.instances rects } }

def settleDots (g : Gallery) : Gallery :=
  { g with dots := { g.dots with
      instances := placeEach placeDot g.dots.instances g.dotPath.placements } }

theorem arrangeTiles_eq_ok : g.arrangeTiles area = .ok h ↔
    ∃ solution, (g.tileGrid area).solve = .ok solution ∧ h = g.settleTiles solution.rects := by
  change ((g.tileGrid area).solve >>= fun solution => .ok (g.settleTiles solution.rects)) = _ ↔ _
  cases (g.tileGrid area).solve with
  | error failure => simp [bind, Except.bind]
  | ok solution => simp [bind, Except.bind, eq_comm]

theorem arrangeDots_eq_ok : g.arrangeDots = .ok h ↔ g.dotPath.Checked ∧ h = g.settleDots := by
  change (g.dotPath.solve >>= fun solution => .ok { g with dots := { g.dots with
    instances := placeEach placeDot g.dots.instances solution.placements } }) = _ ↔ _
  obtain ⟨error, hproblem, hsolve⟩ | ⟨hchecked, segmentCount, hsolve⟩ := g.dotPath.refused_or_solved
  · have hrefused : ¬ g.dotPath.Checked := by
      rw [← PathLayout.problem?_eq_none_iff, hproblem]
      simp
    simp [hsolve, hrefused, bind, Except.bind]
  · simp only [hsolve, hchecked, bind, Except.bind, true_and, Except.ok.injEq]
    exact eq_comm

/-! ### Arranging keeps all but places -/

theorem unplaced_placeHeader (g : Gallery) (size : Vec2) :
    (g.placeHeader size).unplaced = g.unplaced := rfl

theorem unplaced_settleTiles (g : Gallery) (rects : List Rect) :
    (g.settleTiles rects).unplaced = g.unplaced := by
  have hplaced : (placeEach placeTile g.tiles.instances rects).map Tile.unplaced =
      g.tiles.instances.map Tile.unplaced := map_placeEach fun _ _ => rfl
  simp only [unplaced, settleTiles, hplaced]

theorem unplaced_placeRing (f : Circle.Functions) (g : Gallery) (area : Rect) :
    (g.placeRing f area).unplaced = g.unplaced := rfl

theorem unplaced_settleDots (g : Gallery) : g.settleDots.unplaced = g.unplaced := by
  have hplaced : (placeEach placeDot g.dots.instances g.dotPath.placements).map
      Rectangle.unplaced = g.dots.instances.map Rectangle.unplaced := map_placeEach fun _ _ => rfl
  simp only [unplaced, settleDots, hplaced]

/-- Also an arrangement that fails changes nothing but places. -/
theorem unplaced_arrangeBy (f : Circle.Functions) (g : Gallery) (size : Vec2) :
    (g.arrangeBy f size).gallery.unplaced = g.unplaced := by
  rw [arrangeBy]
  dsimp only
  cases htiles : (g.placeHeader size).arrangeTiles (areas size).grid with
  | error failure => exact g.unplaced_placeHeader size
  | ok withTiles =>
    obtain ⟨solution, -, rfl⟩ := arrangeTiles_eq_ok.mp htiles
    have hring := unplaced_placeRing f ((g.placeHeader size).settleTiles solution.rects)
      (areas size).ring
    rw [unplaced_settleTiles, unplaced_placeHeader] at hring
    dsimp only
    cases hdots : Gallery.arrangeDots _ with
    | error failure => exact hring
    | ok withDots =>
      obtain ⟨-, rfl⟩ := arrangeDots_eq_ok.mp hdots
      exact (unplaced_settleDots _).trans hring

/-! ### Where every item goes -/

theorem tileGrid_unplaced (g : Gallery) (area : Rect) :
    g.unplaced.tileGrid area = g.tileGrid area := by
  have hwide : g.unplaced.tiles.instances.map Tile.wide = g.tiles.instances.map Tile.wide :=
    List.map_map ..
  rw [tileGrid, hwide, tileGrid]

/-- The gallery with all items placed, the tiles at the given rectangles. -/
def placed (f : Circle.Functions) (g : Gallery) (size : Vec2) (rects : List Rect) : Gallery :=
  (((g.placeHeader size).settleTiles rects).placeRing f (areas size).ring).settleDots

theorem dotPath_unplaced (f : Circle.Functions) (g : Gallery) (area : Rect) :
    (g.unplaced.placeRing f area).dotPath = (g.placeRing f area).dotPath := by
  have hextents : g.unplaced.dots.instances.map (fun _ => dotExtent) =
      g.dots.instances.map fun _ => dotExtent := List.map_map ..
  simp only [dotPath, placeRing, hextents]
  rfl

theorem placed_unplaced (hrects : rects.length = g.tiles.instances.length) :
    g.unplaced.placed f size rects = g.placed f size rects := by
  have htiles : placeEach placeTile (g.tiles.instances.map Tile.unplaced) rects =
      placeEach placeTile g.tiles.instances rects := placeEach_map (fun _ _ => rfl) hrects
  have hcenters : (g.placeRing f (areas size).ring).dotPath.placements.length =
      g.dots.instances.length :=
    (PathLayout.length_placements _).trans (List.length_map ..)
  have hdots : placeEach placeDot (g.dots.instances.map Rectangle.unplaced)
      (g.unplaced.placeRing f (areas size).ring).dotPath.placements =
      placeEach placeDot g.dots.instances (g.placeRing f (areas size).ring).dotPath.placements := by
    rw [dotPath_unplaced]
    exact placeEach_map (fun _ _ => rfl) hcenters
  exact congrArg₂ (fun tiles dots => ({ g.placed f size rects with
    tiles := ⟨tiles, g.tiles.walks⟩, dots := ⟨dots, g.dots.walks⟩ } : Gallery)) htiles hdots

/-! ### When the grid is refused -/

/-- The width of the grid or the height of the areas is infinite. -/
def Overflows (size : Vec2) : Prop :=
  (gridWidth size.x).isInf = true ∨ (bodyHeight size.y).isInf = true

instance (size : Vec2) : Decidable (Overflows size) :=
  inferInstanceAs (Decidable (_ ∨ _))

theorem not_overflows : ¬ Overflows size ↔
    (gridWidth size.x).isInf = false ∧ (bodyHeight size.y).isInf = false := by
  rw [Overflows, not_or, Bool.not_eq_true, Bool.not_eq_true]

/-- Why an arrangement fails, if it does. -/
def refusal : LayoutFailure :=
  .refused (.invalid .gridSize .notFiniteOrNegative)

theorem tileGrid_fits (hcount : g.tiles.instances.length < UInt64.size) (area : Rect) (axis : Axis) :
    ∀ s ∈ (g.tileGrid area).spans axis, s.Fits ((g.tileGrid area).declared axis) := by
  have hcells : ∀ cell ∈ (g.tileGrid area).cells,
      cell.columns.Fits (some (UInt64.ofNat gridColumns)) ∧ cell.rows.Fits none :=
    pack_fits (by simpa [Cursor.opened] using hcount)
  intro s hs
  obtain ⟨cell, hcell, rfl⟩ := List.mem_map.mp hs
  cases axis with
  | horizontal => exact (hcells cell hcell).1
  | vertical => exact (hcells cell hcell).2

theorem tileGrid_refusal? (g : Gallery) (h : Overflows size) :
    (g.tileGrid (areas size).grid).refusal? = some (.invalid .gridSize .notFiniteOrNegative) := by
  have hextent : (areas size).grid.size.isFinite = false := by
    refine Bool.eq_false_iff.mpr fun hfinite => ?_
    obtain ⟨hwidth, hheight⟩ := (Bool.and_eq_true ..).mp hfinite
    rcases h with h | h
    · exact absurd h (Bool.eq_false_iff.mp (isInf_of_isFinite hwidth))
    · exact absurd h (Bool.eq_false_iff.mp (isInf_of_isFinite hheight))
  have hproblem : (g.tileGrid (areas size).grid).problem? =
      some (.invalid .gridSize .notFiniteOrNegative) := by
    rw [Grid.problem?, if_pos]
    change (!((areas size).grid.size.isFinite && _ && _)) = true
    rw [hextent]
    rfl
  rw [Grid.refusal?, hproblem, Option.some_or]

theorem tileGrid_checked (g : Gallery) (h : ¬ Overflows size) :
    (g.tileGrid (areas size).grid).Checked := by
  obtain ⟨hwidth, hheight⟩ := not_overflows.mp h
  have hspacing : (margin * 0.5).isFinite = true ∧ 0 ≤ margin * 0.5 := by decide +kernel
  have horigin : margin.isFinite = true ∧ bodyTop.isFinite = true := by decide +kernel
  refine ⟨fun axis => ?_, fun axis => ?_, hspacing.1, hspacing.2, fun axis => ?_⟩
  · cases axis with
    | horizontal => exact (gridWidth_within hwidth).isFinite
    | vertical => exact (bodyHeight_within hheight).isFinite
  · cases axis <;> exact Constraint.le_greater rfl
  · cases axis
    · exact horigin.1
    · exact horigin.2

theorem arrangeBy_refused (f : Circle.Functions) (g : Gallery) (h : Overflows size) :
    g.arrangeBy f size = ⟨g.placeHeader size, some refusal⟩ := by
  have hrefused : (g.tileGrid (areas size).grid).solve = .error refusal :=
    Grid.solve_refused (g.tileGrid_refusal? h)
  have htiles : (g.placeHeader size).arrangeTiles (areas size).grid = .error refusal := by
    change ((g.tileGrid (areas size).grid).solve >>= _) = _
    rw [hrefused]
    rfl
  rw [arrangeBy]
  simp only [htiles]

/-! ### When all is placed -/

theorem tileGrid_solve (hcount : g.tiles.instances.length < UInt64.size)
    (h : ¬ Overflows size) : ∃ solution, (g.tileGrid (areas size).grid).solve = .ok solution ∧
      solution.rects.length = g.tiles.instances.length := by
  obtain ⟨solution, hsolution⟩ := Grid.accepted_iff.mpr
    ⟨g.tileGrid_checked h, tileGrid_fits hcount (areas size).grid⟩
  refine ⟨solution, hsolution, (Grid.solve_length hsolution).trans ?_⟩
  exact (length_pack ..).trans (List.length_map ..)

theorem dotPath_checked {points : List Vec2} (hring : g.ring.points = points)
    (hfinite : ∀ point ∈ points, (point + g.ring.geometry.origin).isFinite = true)
    (hpoints : points ≠ []) : g.dotPath.Checked where
  points_finite point hpoint := by
    obtain ⟨relative, hrelative, rfl⟩ := List.mem_map.mp hpoint
    exact hfinite relative (hring ▸ hrelative)
  length_good _ hlength := nomatch hlength
  offset_finite := show (0 : Float32).isFinite = true by decide +kernel
  items_good extent hextent := by
    obtain ⟨-, -, rfl⟩ := List.mem_map.mp hextent
    decide +kernel
  points_nonempty hnone := hpoints (hring ▸ List.map_eq_nil_iff.mp hnone)

/-- The second solver never fails where the first did not. -/
theorem ringPath_checked (hf : f.Bounded) (h : ¬ Overflows size) :
    (g.placeRing f (areas size).ring).dotPath.Checked := by
  obtain ⟨hwidth, hheight⟩ := not_overflows.mp h
  refine dotPath_checked rfl (ringPoints_finite hf hwidth hheight) fun hnone => ?_
  cases hnone

theorem arrangeBy_placed {solution : Grid.Solution}
    (hsolve : (g.tileGrid (areas size).grid).solve = .ok solution)
    (hpath : ((g.placeHeader size).placeRing f (areas size).ring).dotPath.Checked) :
    g.arrangeBy f size = ⟨g.placed f size solution.rects, none⟩ := by
  have htiles : (g.placeHeader size).arrangeTiles (areas size).grid =
      .ok ((g.placeHeader size).settleTiles solution.rects) :=
    arrangeTiles_eq_ok.mpr ⟨solution, hsolve, rfl⟩
  have hdots : (((g.placeHeader size).settleTiles solution.rects).placeRing f
      (areas size).ring).arrangeDots = .ok (g.placed f size solution.rects) :=
    arrangeDots_eq_ok.mpr ⟨hpath, rfl⟩
  simp only [arrangeBy, htiles, hdots]

/-- Where the items were does not matter. -/
theorem arrangeBy_unplaced (hf : f.Bounded) (hcount : g.tiles.instances.length < UInt64.size)
    (h : ¬ Overflows size) :
    (g.arrangeBy f size).failure = none ∧ g.unplaced.arrangeBy f size = g.arrangeBy f size := by
  obtain ⟨solution, hsolve, hlength⟩ := tileGrid_solve hcount h
  have hsolve' : (g.unplaced.tileGrid (areas size).grid).solve = .ok solution := by
    rw [tileGrid_unplaced, hsolve]
  rw [arrangeBy_placed hsolve (ringPath_checked hf h), arrangeBy_placed hsolve' (ringPath_checked hf h),
    placed_unplaced hlength]
  exact ⟨rfl, rfl⟩

end Gallery

end RetainedScene
