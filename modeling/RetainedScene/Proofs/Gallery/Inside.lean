import RetainedScene.Proofs.Gallery.Ring
import RetainedScene.Proofs.Gallery.Showing

/-!
# Items inside of the window

Whatever is in a gallery, most of its items are inside of the window. Only tiles may not be: gaps
between rows never shrink and captions lie a constant below the top of their frames, so that captions
disappear where rows are not higher than that on both sides.
-/

set_option autoImplicit false

namespace RetainedScene

open Binary32 Scalar

/-- The rectangle is not empty, and begins inside of a window. -/
def Rect.ShownIn (window : Vec2) (r : Rect) : Prop :=
  r.isEmpty = false ∧ (⟨.zero, window⟩ : Rect).contains r.origin = true

theorem Rect.isEmpty_eq_false {r : Rect} (h : ∀ axis, 0 < r.size.along axis) :
    r.isEmpty = false :=
  Bool.or_eq_false_iff.mpr ⟨decide_eq_false fun hle => not_lt_of_le hle (h .horizontal),
    decide_eq_false fun hle => not_lt_of_le hle (h .vertical)⟩

/-- It is enough to begin a pixel before the end of the window. -/
theorem Rect.shownIn_of_lies {window : Vec2} {r : Rect}
    (hwindow : ∀ axis, (window.along axis).isFinite = true)
    (horigin : ∀ axis, Lies 0 (value (window.along axis) - 1) (r.origin.along axis))
    (hsize : ∀ axis, 0 < r.size.along axis) : r.ShownIn window := by
  refine ⟨isEmpty_eq_false hsize, ?_⟩
  have hfrom (axis : Axis) : 0 ≤ r.origin.along axis :=
    atLeast_zero_iff.mp (.inr ⟨(horigin axis).finite, (horigin axis).low_le⟩)
  have hbefore (axis : Axis) : r.origin.along axis < 0 + window.along axis := by
    have hround := RoundsTo.add (x := 0) rfl (hwindow axis)
    rw [value_zero, zero_add] at hround
    obtain ⟨hfinite, hvalue⟩ := hround.exact (value_representable _)
    refine (value_lt_iff (horigin axis).finite hfinite).mp ?_
    linarith [(horigin axis).le_high]
  simp only [contains, Bool.and_eq_true, decide_eq_true_eq]
  exact ⟨⟨⟨hfrom .horizontal, hfrom .vertical⟩, hbefore .horizontal⟩, hbefore .vertical⟩

namespace Gallery

variable {f : Circle.Functions} {g : Gallery} {window : Vec2} {r : Rect} {t : Tile}

/-- At least as large as the settings let the window become, and not above 10000 pixels. -/
structure Admits (g : Gallery) (window : Vec2) : Prop where
  least (axis : Axis) : ∀ least ∈ g.windowSettings.minSize, least.along axis ≤ window.along axis
  most (axis : Axis) : window.along axis ≤ 10000

theorem Admits.lies (h : g.Admits window) :
    Lies 480 10000 window.x ∧ Lies 320 10000 window.y := by
  have hlimit : Lies 10000 10000 (Float32.ofNat 10000) := .whole rfl (by norm_num) (by norm_num)
  have hwidth : Lies 480 480 (Float32.ofNat 480) := .whole rfl (by norm_num) (by norm_num)
  have hheight : Lies 320 320 (Float32.ofNat 320) := .whole rfl (by norm_num) (by norm_num)
  exact ⟨.of_bounds (hwidth.atLeast.of_le (h.least .horizontal ⟨480, 320⟩ rfl))
      (hlimit.atMost.of_le (h.most .horizontal)),
    .of_bounds (hheight.atLeast.of_le (h.least .vertical ⟨480, 320⟩ rfl))
      (hlimit.atMost.of_le (h.most .vertical))⟩

/-! ### Tiles -/

/-- Where the frame of a tile is not higher than the insets, nothing is left for the caption. -/
theorem caption_isEmpty (h : AtMost r.size.y 16) (t : Tile) :
    (placeTile t r).caption.geometry.isEmpty = true := by
  have hmost : AtMost (r.size.y - margin * 0.5 * 2) 0 :=
    h.sub inset_lies.atLeast representable_zero (by norm_num)
  have hle : r.size.y - margin * 0.5 * 2 ≤ 0 := hmost.le (.inr ⟨rfl, value_zero.ge⟩)
  exact (Bool.or_eq_true ..).mpr (.inr (decide_eq_true hle))

/-- A tile that begins in the window, and whose frame is large enough for the insets. -/
structure Roomy (window : Vec2) (r : Rect) : Prop where
  x : Lies 15 (value window.x - 173) r.origin.x
  y : Lies 71 (value window.y - 13) r.origin.y
  width : AtLeast r.size.x 64
  height_finite : r.size.y.isFinite = true
  height : 16 < value r.size.y

section

variable (hwidth : Lies 480 10000 window.x) (hheight : Lies 320 10000 window.y)

include hwidth hheight

theorem along_isFinite (axis : Axis) : (window.along axis).isFinite = true := by
  cases axis with
  | horizontal => exact hwidth.finite
  | vertical => exact hheight.finite

theorem Roomy.shown (h : Roomy window r) (t : Tile) :
    (placeTile t r).frame.geometry.ShownIn window ∧
      (placeTile t r).caption.geometry.ShownIn window := by
  have hwindow := along_isFinite hwidth hheight
  have hwide : AtLeast (r.size.x - margin * 0.5 * 2) 48 :=
    h.width.sub inset_lies.atMost
      (by exact_mod_cast representable_nat (n := 48) (by norm_num)) (by norm_num)
  have hhigh : 0 < r.size.y - margin * 0.5 * 2 :=
    sub_nat_pos h.height_finite inset_lies.finite (n := 16)
      (inset_lies.value_eq.trans (by norm_num)) (by norm_num) (by exact_mod_cast h.height)
  constructor
  · refine Rect.shownIn_of_lies hwindow (fun axis => ?_) fun axis => ?_ <;> cases axis
    · exact h.x.mono (by norm_num) (sub_le_sub_left (by norm_num) _)
    · exact h.y.mono (by norm_num) (sub_le_sub_left (by norm_num) _)
    · exact h.width.pos (by norm_num)
    · exact (value_pos_iff h.height_finite).mp (by linarith [h.height])
  · have hx := h.x.add gap_lies (by norm_num) (by linarith [hwidth.le_high])
    have hy := h.y.add gap_lies (by norm_num) (by linarith [hheight.le_high])
    refine Rect.shownIn_of_lies hwindow (fun axis => ?_) fun axis => ?_ <;> cases axis
    · exact hx.mono (by norm_num) (show _ ≤ value window.x - 1 by linarith)
    · exact hy.mono (by norm_num) (show _ ≤ value window.y - 1 by linarith)
    · exact hwide.pos (by norm_num)
    · exact hhigh

variable (htiles : g.tiles.instances.length < UInt64.size) {solution : Grid.Solution}
  (hsolve : (g.tileGrid (areas window).grid).solve = .ok solution)

include htiles hsolve

theorem tile_placed (hr : r ∈ solution.rects) :
    (value window.y ≤ 24 * g.rowCount + 80 → AtMost r.size.y 16) ∧
      (24 * g.rowCount + 80 ≤ value window.y → r.size.y.isFinite = true ∧
        (16 < value r.size.y → Roomy window r) ∧
        (24 * g.rowCount + 80 + g.rowCount * (g.rowCount + 1) * (g.rowCount + 4) / 2 ^ 18 ≤
          value window.y → 16 < value r.size.y)) := by
  obtain ⟨cell, hcell, hplaces⟩ := Grid.of_solve hsolve hr
  obtain ⟨columns, column, hcolumns, hcolumn, hx, hsizeX⟩ := hplaces .horizontal
  obtain ⟨rows, row, hrows, hrow, hy, hsizeY⟩ := hplaces .vertical
  have hspan (axis : Axis) : cell.along axis ∈ (g.tileGrid (areas window).grid).spans axis :=
    List.mem_map_of_mem hcell
  obtain ⟨hoffset, hwide⟩ := column_placed hwidth hcolumns (hspan .horizontal) hcolumn
  have hcramped := row_cramped htiles hheight hrows (hspan .vertical) hrow
  have hroomy := row_roomy htiles hheight hrows (hspan .vertical) hrow
  change r.origin.x = margin + column.1 at hx
  change r.origin.y = bodyTop + row.1 at hy
  change r.size.x = column.2 at hsizeX
  change r.size.y = row.2 at hsizeY
  rw [hsizeY]
  refine ⟨hcramped, fun henough => ?_⟩
  obtain ⟨hbelow, hfinite, hspacious⟩ := hroomy henough
  refine ⟨hfinite, fun hhigh => ⟨?_, ?_, hsizeX ▸ hwide, hsizeY ▸ hfinite, hsizeY ▸ hhigh⟩,
    hspacious⟩
  · rw [hx]
    exact (margin_lies.add hoffset (by norm_num) (by linarith [hwidth.le_high])).mono (by norm_num)
      (by linarith)
  · rw [hy]
    exact (bodyTop_lies.add hbelow (by norm_num) (by linarith [hheight.le_high])).mono (by norm_num)
      (by linarith)

theorem roomy_of_high (hr : r ∈ solution.rects) (h : 16 < r.size.y) : Roomy window r := by
  obtain ⟨hcramped, hroomy⟩ := tile_placed hwidth hheight htiles hsolve hr
  have henough : 24 * g.rowCount + 80 ≤ value window.y := by
    by_contra hlow
    have hmost := (hcramped (not_le.mp hlow).le).le (.inr ⟨rfl, value_sixteen.ge⟩)
    exact not_lt_of_le hmost h
  obtain ⟨hfinite, hhigh, -⟩ := hroomy henough
  exact hhigh (value_sixteen ▸ (value_lt_iff rfl hfinite).mpr h)

theorem high_of_caption (hr : r ∈ solution.rects)
    (h : (placeTile t r).caption.geometry.isEmpty = false) : 16 < r.size.y := by
  obtain ⟨hcramped, hroomy⟩ := tile_placed hwidth hheight htiles hsolve hr
  by_contra hlow
  have hmost : AtMost r.size.y 16 := by
    rcases le_total (value window.y) (24 * g.rowCount + 80) with hle | hle
    · exact hcramped hle
    · obtain ⟨hfinite, -, -⟩ := hroomy hle
      refine .inr ⟨hfinite, not_lt.mp fun hlt => hlow ?_⟩
      exact (value_lt_iff rfl hfinite).mp (value_sixteen ▸ hlt)
  rw [caption_isEmpty hmost t] at h
  cases h

end

/-! ### All other items -/

/-- Items that are not of a tile. -/
def otherItems (g : Gallery) : List Item :=
  [.rectangle g.background, .text g.title, .path g.ring] ++ g.dots.instances.map .rectangle

section

variable (hwidth : Lies 480 10000 window.x) (hheight : Lies 320 10000 window.y)

include hwidth hheight

theorem along_least (axis : Axis) : 320 ≤ value (window.along axis) := by
  cases axis with
  | horizontal => exact hwidth.low_le.trans' (by norm_num)
  | vertical => exact hheight.low_le

theorem along_most (axis : Axis) : value (window.along axis) ≤ 10000 := by
  cases axis with
  | horizontal => exact hwidth.le_high
  | vertical => exact hheight.le_high

theorem background_shown : (⟨.zero, window⟩ : Rect).ShownIn window := by
  refine Rect.shownIn_of_lies (along_isFinite hwidth hheight) (fun axis => ?_) fun axis => ?_
  · have hzero : (Vec2.zero.along axis) = 0 := by cases axis <;> rfl
    change Lies 0 _ (Vec2.zero.along axis)
    rw [hzero]
    exact ⟨rfl, value_zero.ge, by linarith [along_least hwidth hheight axis, value_zero]⟩
  · refine (value_pos_iff (along_isFinite hwidth hheight axis)).mp ?_
    linarith [along_least hwidth hheight axis]

theorem title_shown : (⟨⟨margin, margin⟩, ⟨window.x - 2 * margin, titleHeight - margin⟩⟩ : Rect).ShownIn
    window := by
  have hmargins : value (2 * margin) = (32 : Nat) := twoMargins_lies.value_eq.trans (by norm_num)
  refine Rect.shownIn_of_lies (along_isFinite hwidth hheight) (fun axis => ?_) fun axis => ?_
  · have horigin : (⟨margin, margin⟩ : Vec2).along axis = margin := by cases axis <;> rfl
    change Lies 0 _ ((⟨margin, margin⟩ : Vec2).along axis)
    rw [horigin]
    exact margin_lies.mono (by norm_num) (by linarith [along_least hwidth hheight axis])
  · cases axis with
    | horizontal =>
      refine sub_nat_pos hwidth.finite twoMargins_lies.finite hmargins (by norm_num) ?_
      push_cast
      linarith [hwidth.low_le]
    | vertical => exact titleExtent_lies.atLeast.pos (by norm_num)

theorem ring_shown : (areas window).ring.ShownIn window := by
  refine Rect.shownIn_of_lies (along_isFinite hwidth hheight) (fun axis => ?_) fun axis => ?_
  · obtain ⟨o, e, hspans, ho, he, hsum⟩ := ring_spans hwidth hheight axis
    exact hspans.origin.mono (by linarith) (by linarith)
  · obtain ⟨o, e, hspans, ho, he, hsum⟩ := ring_spans hwidth hheight axis
    refine (value_pos_iff hspans.extent.finite).mp ?_
    linarith [hspans.extent.low_le]

theorem dot_shown (hf : f.Bounded) (hdots : g.dots.instances.length < UInt64.size)
    {placement : Placement}
    (hplacement : placement ∈ (g.placeRing f (areas window).ring).dotPath.placements) :
    (placement.rect dotExtent).ShownIn window := by
  refine Rect.shownIn_of_lies (along_isFinite hwidth hheight) (fun axis => ?_) fun axis => ?_
  · have horigin : (placement.rect dotExtent).origin.along axis =
        placement.center.along axis - dotSize * 0.5 := by cases axis <;> rfl
    have hcenter := dot_placed hf hdots hwidth hheight hplacement axis
    rw [horigin]
    exact (hcenter.sub halfDot_lies (by norm_num) (by linarith [along_most hwidth hheight axis])).mono
      (by norm_num) (by linarith)
  · have hextent : (placement.rect dotExtent).size.along axis = dotSize := by cases axis <;> rfl
    rw [hextent]
    exact dotSize_lies.atLeast.pos (by norm_num)

theorem otherItems_shown (hf : f.Bounded) (hdots : g.dots.instances.length < UInt64.size)
    (rects : List Rect) :
    ∀ item ∈ (g.placed f window rects).otherItems, item.geometry.ShownIn window := by
  refine List.forall_mem_append.mpr ⟨?_, fun item hitem => ?_⟩
  · refine List.forall_mem_cons.mpr ⟨background_shown hwidth hheight,
      List.forall_mem_cons.mpr ⟨title_shown hwidth hheight, fun item hitem => ?_⟩⟩
    obtain rfl := List.mem_singleton.mp hitem
    exact ring_shown hwidth hheight
  · obtain ⟨dot, hdot, rfl⟩ := List.mem_map.mp hitem
    have hlength : (((g.placeHeader window).settleTiles rects).placeRing f
        (areas window).ring).dotPath.placements.length = g.dots.instances.length :=
      (PathLayout.length_placements _).trans (List.length_map ..)
    obtain ⟨before, -, placement, hplacement, rfl⟩ := mem_placeEach hlength hdot
    exact dot_shown (g := (g.placeHeader window).settleTiles rects) hwidth hheight hf hdots
      hplacement

end

/-! ### All items -/

def AllShown (window : Vec2) (sights : List Sight) : Prop :=
  ∀ sight ∈ sights, sight.item.geometry.ShownIn window

theorem allShown_lineup (hothers : ∀ item ∈ g.otherItems, item.geometry.ShownIn window) :
    AllShown window g.lineup ↔ ∀ t ∈ g.tiles.instances,
      t.frame.geometry.ShownIn window ∧ t.caption.geometry.ShownIn window := by
  have hitems : AllShown window g.lineup ↔
      ∀ item ∈ g.lineup.map Sight.item, item.geometry.ShownIn window :=
    (List.forall_mem_map (P := fun item : Item => item.geometry.ShownIn window)).symm
  rw [otherItems, List.forall_mem_append] at hothers
  obtain ⟨hfixed, hdots⟩ := hothers
  obtain ⟨hbackground, hfixed⟩ := List.forall_mem_cons.mp hfixed
  obtain ⟨htitle, hring⟩ := List.forall_mem_cons.mp hfixed
  rw [hitems, items_lineup]
  constructor
  · intro h t ht
    have htile (item : Item) (hitem : item ∈ [.rectangle t.frame, .text t.caption]) :
        item.geometry.ShownIn window :=
      h item (by simp only [List.mem_append, List.mem_flatMap]; exact .inl (.inl (.inr ⟨t, ht, hitem⟩)))
    exact ⟨htile (.rectangle t.frame) (by simp), htile (.text t.caption) (by simp)⟩
  · intro h
    refine List.forall_mem_append.mpr ⟨List.forall_mem_append.mpr ⟨List.forall_mem_append.mpr
      ⟨?_, fun item hitem => ?_⟩, hring⟩, hdots⟩
    · exact List.forall_mem_cons.mpr ⟨hbackground, List.forall_mem_singleton.mpr htitle⟩
    · obtain ⟨t, ht, hitem⟩ := List.mem_flatMap.mp hitem
      obtain ⟨hframe, hcaption⟩ := h t ht
      rcases List.mem_pair.mp hitem with rfl | rfl
      · exact hframe
      · exact hcaption

/-- What of a gallery is inside of the window that it has been laid out for. It depends on how many
    rows its tiles take up. -/
structure InWindow (after : Gallery) (window : Vec2) (rows : Nat) (sights : List Sight) : Prop where
  items : sights.map Sight.item = [.rectangle after.background, .text after.title] ++
    (after.tiles.instances.flatMap fun t => [.rectangle t.frame, .text t.caption]) ++
      [.path after.ring] ++ after.dots.instances.map .rectangle
  others : ∀ item ∈ after.otherItems, item.geometry.ShownIn window
  all_iff : AllShown window sights ↔ ∀ t ∈ after.tiles.instances, 16 < t.frame.geometry.size.y
  few : rows ≤ 9 → AllShown window sights
  /-- A row needs 24 pixels, of which a gap takes up 8. The last term stands for roundings. -/
  spacious : (24 * rows + 80 + rows * (rows + 1) * (rows + 4) / 2 ^ 18 : ℚ) ≤ value window.y →
    AllShown window sights
  cramped : value window.y ≤ 24 * rows + 80 →
    ∀ t ∈ after.tiles.instances, t.caption.geometry.isEmpty = true

theorem placed_inWindow (hf : f.Bounded) (htiles : g.tiles.instances.length < UInt64.size)
    (hdots : g.dots.instances.length < UInt64.size) (h : g.Admits window)
    {solution : Grid.Solution} (hsolve : (g.tileGrid (areas window).grid).solve = .ok solution)
    (hlength : solution.rects.length = g.tiles.instances.length) :
    (g.placed f window solution.rects).InWindow window g.rowCount
      (g.placed f window solution.rects).lineup := by
  obtain ⟨hwidth, hheight⟩ := h.lies
  have hothers := otherItems_shown hwidth hheight hf hdots solution.rects
  have hplaced : ∀ t ∈ (g.placed f window solution.rects).tiles.instances,
      ∃ before, ∃ r ∈ solution.rects, t = placeTile before r := by
    intro t ht
    obtain ⟨before, -, r, hr, heq⟩ := mem_placeEach hlength ht
    exact ⟨before, r, hr, heq⟩
  have hall : AllShown window (g.placed f window solution.rects).lineup ↔
      ∀ t ∈ (g.placed f window solution.rects).tiles.instances, 16 < t.frame.geometry.size.y := by
    rw [allShown_lineup hothers]
    refine forall₂_congr fun t ht => ?_
    obtain ⟨before, r, hr, rfl⟩ := hplaced t ht
    constructor
    · exact fun hshown => high_of_caption hwidth hheight htiles hsolve hr hshown.2.1
    · exact fun hhigh => (roomy_of_high hwidth hheight htiles hsolve hr hhigh).shown hwidth hheight _
  have hspacious : (24 * g.rowCount + 80 + g.rowCount * (g.rowCount + 1) * (g.rowCount + 4) / 2 ^ 18 :
      ℚ) ≤ value window.y → AllShown window (g.placed f window solution.rects).lineup := by
    refine fun henough => hall.mpr fun t ht => ?_
    obtain ⟨before, r, hr, rfl⟩ := hplaced t ht
    have hroundings : (0 : ℚ) ≤ g.rowCount * (g.rowCount + 1) * (g.rowCount + 4) / 2 ^ 18 := by
      positivity
    obtain ⟨hfinite, -, hhigh⟩ :=
      (tile_placed hwidth hheight htiles hsolve hr).2 (by linarith)
    exact (value_lt_iff rfl hfinite).mp (value_sixteen ▸ hhigh henough)
  refine ⟨items_lineup _, hothers, hall, fun hfew => hspacious ?_, hspacious, fun hlow t ht => ?_⟩
  · have hfew' : (g.rowCount : ℚ) ≤ 9 := by exact_mod_cast hfew
    have hroundings : (g.rowCount : ℚ) * (g.rowCount + 1) * (g.rowCount + 4) ≤
        9 * (9 + 1) * (9 + 4) := by gcongr
    linarith [hheight.low_le]
  · obtain ⟨before, r, hr, rfl⟩ := hplaced t ht
    exact caption_isEmpty ((tile_placed hwidth hheight htiles hsolve hr).1 hlow) before

/-- Laying out succeeds for any gallery and window. All items but those of tiles are always inside of
    the window, and all of them as long as the rows keep more than the insets of captions. -/
theorem arrangeBy_inWindow (hf : f.Bounded) (g : Gallery) (window : Vec2) (h : g.Admits window)
    (htiles : g.tiles.instances.length < UInt64.size)
    (hdots : g.dots.instances.length < UInt64.size) :
    ∃ after sights, g.arrangeBy f window = ⟨after, none⟩ ∧ after.sights .root = .ok sights ∧
      after.InWindow window g.rowCount sights := by
  obtain ⟨hwidth, hheight⟩ := h.lies
  have hoverflow := not_overflows_of_lies hwidth hheight
  obtain ⟨solution, hsolve, hlength⟩ := tileGrid_solve htiles hoverflow
  exact ⟨_, _, arrangeBy_placed hsolve (ringPath_checked hf hoverflow), (sights_root _).1,
    placed_inWindow hf htiles hdots h hsolve hlength⟩

/-- Tiles in four rows, and some dots. -/
def dottedGallery : Gallery :=
  { mixedGallery with dots := { instances := List.replicate 5 {} } }

/-- The smallest window that the settings allow. -/
def smallWindow : Vec2 :=
  ⟨480, 320⟩

theorem admits_smallWindow (g : Gallery) : g.Admits smallWindow where
  least axis least hleast := by
    obtain rfl := Option.some.inj hleast
    cases axis <;> decide
  most axis := by cases axis <;> decide

theorem dottedGallery_inWindow : dottedGallery.Admits smallWindow ∧
    dottedGallery.tiles.instances.length < UInt64.size ∧
    dottedGallery.dots.instances.length < UInt64.size ∧
    ∃ after sights, dottedGallery.arrange smallWindow = ⟨after, none⟩ ∧
      after.sights .root = .ok sights ∧ AllShown smallWindow sights := by
  obtain ⟨after, sights, harranged, hsights, hinside⟩ :=
    arrangeBy_inWindow Circle.functions_bounded dottedGallery smallWindow
      dottedGallery.admits_smallWindow (by decide) (by decide)
  exact ⟨dottedGallery.admits_smallWindow, by decide, by decide, after, sights, harranged, hsights,
    hinside.few (by decide)⟩

def manyTiles : Model TileSpec :=
  .ofList (List.replicate 30 ⟨"tile", .white, false⟩)

/-- Ten rows, which is one more than a window of this height has room for. -/
def crowdedGallery : Gallery :=
  (new "crowded").refilled manyTiles 0

theorem crowdedGallery_notShown : (new "crowded").refill manyTiles 0 = .ok crowdedGallery ∧
    crowdedGallery.Admits smallWindow ∧
    ∃ after sights, crowdedGallery.arrange smallWindow = ⟨after, none⟩ ∧
      after.sights .root = .ok sights ∧ ¬ AllShown smallWindow sights := by
  have htiles : crowdedGallery.tiles.instances.length < UInt64.size := by decide
  have hadmits := crowdedGallery.admits_smallWindow
  obtain ⟨hwidth, hheight⟩ := hadmits.lies
  have hoverflow := not_overflows_of_lies hwidth hheight
  obtain ⟨solution, hsolve, hlength⟩ := tileGrid_solve htiles hoverflow
  have hinside := placed_inWindow Circle.functions_bounded htiles (by decide) hadmits hsolve hlength
  refine ⟨refill_eq_refilled rfl rfl manyTiles 0, hadmits, _, _,
    arrangeBy_placed hsolve (ringPath_checked Circle.functions_bounded hoverflow),
    (sights_root _).1, fun hall => ?_⟩
  obtain ⟨t, ht⟩ := List.exists_mem_of_length_pos
    (length_placeEach.symm ▸ (by decide : 0 < crowdedGallery.tiles.instances.length) :
      0 < (crowdedGallery.placed Circle.functions smallWindow solution.rects).tiles.instances.length)
  have hlow : value smallWindow.y ≤ 24 * crowdedGallery.rowCount + 80 := by
    rw [show crowdedGallery.rowCount = 10 by decide,
      show value smallWindow.y = 320 from value_ofNat (n := 320) (by norm_num)]
    norm_num
  have hempty := hinside.cramped hlow t ht
  have hshown := ((allShown_lineup hinside.others).mp hall t ht).2.1
  exact Bool.false_ne_true (hshown.symm.trans hempty)

end Gallery

end RetainedScene
