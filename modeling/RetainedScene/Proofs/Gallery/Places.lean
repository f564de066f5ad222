import RetainedScene.Proofs.Gallery.Rows
import RetainedScene.Proofs.Gallery.Spread

/-!
# Places of tiles

Where a tile begins and how large it is, for windows from 480 by 320 up to 10000 pixels. The columns
always fit. The rows fit as long as each of them has 16 pixels beside the gaps, which never shrink.
-/

set_option autoImplicit false

namespace RetainedScene

open Binary32 Scalar

namespace Grid

/-- How far off a track can lie. Each track before it adds its size and a gap, and two roundings. -/
theorem offsets_lies {spacing cursor : Float32} {sizes : List Float32} {gap part start : ℚ}
    (hspacing : Lies 0 gap spacing) (hsizes : ∀ size ∈ sizes, Lies 0 part size)
    (hcursor : Lies 0 start cursor) {k : Nat} {offset : Float32}
    (hoffset : (offsets spacing cursor sizes)[k]? = some offset)
    (hlimit : start + k * (part + gap + 2 / 2 ^ 10) ≤ 2 ^ 14) :
    Lies 0 (start + k * (part + gap + 2 / 2 ^ 10)) offset := by
  induction sizes generalizing cursor start k with
  | nil => cases hoffset
  | cons size rest ih =>
    cases k with
    | zero =>
      obtain rfl := Option.some.inj hoffset
      simpa using hcursor
    | succ k =>
      have hsize := hsizes size List.mem_cons_self
      have hpart := hsize.low_le.trans hsize.le_high
      have hgap := hspacing.low_le.trans hspacing.le_high
      have hstart := hcursor.low_le.trans hcursor.le_high
      have hlater : 0 ≤ k * (part + gap + 2 / 2 ^ 10) := by positivity
      push_cast at hlimit ⊢
      rw [add_mul, one_mul] at hlimit ⊢
      have hstep := hsize.add_nonneg hspacing (by linarith)
      have hnext := hcursor.add_nonneg hstep (by linarith)
      refine (ih (fun size hsize => hsizes size (List.mem_cons_of_mem _ hsize)) hnext hoffset
        (by linarith)).mono le_rfl (by linarith)

end Grid

namespace Gallery

variable {g : Gallery} {window : Vec2} {first other offset : Float32} {n : Nat} {a low : ℚ}

/-! ### Sizes and offsets of tracks -/

theorem Spread.least (h : Spread low n a first other) {size : Float32}
    (hsize : size ∈ first :: List.replicate n other) : size.isFinite = true ∧ low ≤ value size := by
  obtain ⟨part, -, hfirst, hother⟩ := h
  rcases List.mem_cons.mp hsize with rfl | hsize
  · exact ⟨hfirst.finite, hfirst.low_le⟩
  · obtain rfl := List.eq_of_mem_replicate hsize
    exact ⟨hother.finite, hother.low_le⟩

/-- No track begins behind the space that there is for all of them, and the gaps. -/
theorem Spread.offset_lies (h : Spread low n a first other) (hlow : 0 ≤ low)
    (hlimit : a + 1 + n * (8 + 2 / 2 ^ 10) ≤ 2 ^ 14)
    (hoffset : offset ∈ Grid.offsets (margin * 0.5) 0 (first :: List.replicate n other)) :
    Lies 0 (a + 1 + n * (8 + 2 / 2 ^ 10)) offset := by
  obtain ⟨part, hspace, hfirst, hother⟩ := h
  have hfirst := hfirst.mono hlow le_rfl
  have hother := hother.mono hlow le_rfl
  have hpart := hother.low_le.trans hother.le_high
  have hn : (0 : ℚ) ≤ n := n.cast_nonneg
  have hspace' : 0 ≤ a + 1 := le_trans (by positivity) hspace
  rcases List.mem_cons.mp hoffset with rfl | hoffset
  · exact ⟨rfl, value_zero.ge, by rw [value_zero]; positivity⟩
  · obtain ⟨k, hk⟩ := List.mem_iff_getElem?.mp hoffset
    have hlt : k + 1 ≤ n := by
      have hlength := (List.getElem?_eq_some_iff.mp hk).choose
      rwa [Grid.length_offsets, List.length_replicate] at hlength
    have hlt' : (k : ℚ) + 1 ≤ n := by exact_mod_cast hlt
    have hbefore := mul_nonneg (k.cast_nonneg : (0 : ℚ) ≤ k) hpart
    have hparts := mul_le_mul_of_nonneg_right hlt' hpart
    have hgaps := mul_le_mul_of_nonneg_right hlt' (by norm_num : (0 : ℚ) ≤ 8 + 2 / 2 ^ 10)
    have hzero : Lies 0 0 (0 : Float32) := .of_value rfl value_zero
    have hgap := gap_lies.mono (by norm_num : (0 : ℚ) ≤ 8) le_rfl
    have hstart := hzero.add_nonneg (hfirst.add_nonneg hgap (by linarith)) (by linarith)
    exact (Grid.offsets_lies hgap (fun size hsize => List.eq_of_mem_replicate hsize ▸ hother)
      hstart hk (by linarith)).mono le_rfl (by linarith)

/-! ### Columns -/

theorem value_bodyWidth {width : Float32} (h : Lies 480 10000 width) :
    (bodyWidth width).isFinite = true ∧ value (bodyWidth width) = value width - 48 := by
  have hmargins : value (3 * margin) = (48 : Nat) := threeMargins_lies.value_eq.trans (by norm_num)
  exact_mod_cast value_sub_nat h.finite (by linarith [h.le_high]) threeMargins_lies.finite hmargins
    (by push_cast; linarith [h.low_le])

theorem gridWidth_lies {width : Float32} (h : Lies 480 10000 width) :
    Lies (2 * (value width - 48) / 3 - 1 / 2 ^ 10) (2 * (value width - 48) / 3 + 1 / 2 ^ 10)
      (gridWidth width) := by
  obtain ⟨hbody, hvalue⟩ := value_bodyWidth h
  have hdouble : RoundsTo (2 ^ 1 * value (bodyWidth width)) (bodyWidth width * 2) := by
    have hround := RoundsTo.mul hbody (y := 2) rfl
    rwa [show value (2 : Float32) = 2 ^ 1 from value_ofNat (n := 2) (by norm_num), mul_comm] at hround
  have hlimit : |2 ^ 1 * value (bodyWidth width)| < 2 ^ 128 := by
    rw [hvalue, abs_lt]
    constructor <;> linarith [h.low_le, h.le_high]
  obtain ⟨hdoubled, hdoubled'⟩ := hdouble.exact ((value_representable _).two_pow_mul 1 hlimit)
  have hround := RoundsTo.div hdoubled (y := 3) rfl (value_three ▸ three_ne_zero)
  rw [hdoubled', value_three, hvalue, pow_one] at hround
  have hthird := Lies.of_round hround le_rfl le_rfl (by linarith [h.low_le]) (by linarith [h.le_high])
  obtain ⟨hfinite, hgrid⟩ := value_greater_zero hthird.finite
  have hpos : 0 ≤ value (bodyWidth width * 2 / 3) := by linarith [hthird.low_le, h.low_le]
  rw [max_eq_left hpos] at hgrid
  exact ⟨hfinite, hthird.low_le.trans_eq hgrid.symm, hgrid.trans_le hthird.le_high⟩

theorem mem_pack {cursor : Cursor} {wides : List Bool} {c : Cell} (hc : c ∈ pack cursor wides) :
    ∃ cursor span, c = Cursor.cell cursor span := by
  induction wides generalizing cursor with
  | nil => cases hc
  | cons wide rest ih =>
    rcases List.mem_cons.mp hc with rfl | hc
    · exact ⟨_, _, rfl⟩
    · exact ih hc

theorem columns_free {area : Rect} {s : CellSpan} (hs : s ∈ (g.tileGrid area).spans .horizontal) :
    s.constraint = .free := by
  obtain ⟨c, hc, rfl⟩ := List.mem_map.mp hs
  obtain ⟨cursor, span, rfl⟩ := mem_pack hc
  rfl

theorem rows_single {area : Rect} {s : CellSpan} (hs : s ∈ (g.tileGrid area).spans .vertical) :
    s.count = 1 ∧ s.constraint = tileHeight := by
  obtain ⟨c, hc, rfl⟩ := List.mem_map.mp hs
  obtain ⟨cursor, span, rfl⟩ := mem_pack hc
  exact ⟨rfl, rfl⟩

theorem columns_tracks {t : Grid.Tracks} (hwidth : Lies 480 10000 window.x)
    (ht : (g.tileGrid (areas window).grid).tracks .horizontal = .ok t) :
    ∃ first other, t = ⟨first :: List.replicate 2 other,
        Grid.offsets (margin * 0.5) 0 (first :: List.replicate 2 other), margin * 0.5⟩ ∧
      Spread 64 2 (value (gridWidth window.x) - 16) first other := by
  have hgrid := gridWidth_lies hwidth
  have hgaps : value (margin * 0.5 * Float32.ofNat 2) = (16 : Nat) :=
    columnGaps_lies.value_eq.trans (by norm_num)
  obtain ⟨hleft, hvalue⟩ := value_sub_nat hgrid.finite (by linarith [hgrid.le_high, hwidth.le_high])
    columnGaps_lies.finite hgaps (by push_cast; linarith [hgrid.low_le, hwidth.low_le])
  obtain ⟨hspace, hspace'⟩ := value_greater_zero hleft
  push_cast at hvalue
  rw [hvalue, max_eq_left (by linarith [hgrid.low_le, hwidth.low_le])] at hspace'
  have hmerge : Constraint.free.merge .free = .free := by decide
  have hmax : greater Constraint.free.max Constraint.free.min = Constraint.free.max := by decide
  have hbase : Constraint.free.base? = some (0 : Float32) := by decide
  obtain ⟨first, other, heq, halike⟩ := Grid.tracks_alike ht hbase (n := 2) rfl
    fun track _ => Grid.trackConstraint_alike hmerge hmax (fun s hs _ => columns_free hs) (.inl rfl)
  exact ⟨first, other, heq, columns_spread hspace hspace'
    (by linarith [hgrid.le_high, hwidth.le_high]) (by linarith [hgrid.low_le, hwidth.low_le]) halike⟩

/-- Where a tile begins in the grid, and its width. -/
theorem column_placed {t : Grid.Tracks} {s : CellSpan} {placed : Float32 × Float32}
    (hwidth : Lies 480 10000 window.x)
    (ht : (g.tileGrid (areas window).grid).tracks .horizontal = .ok t)
    (hs : s ∈ (g.tileGrid (areas window).grid).spans .horizontal)
    (hplaced : t.place s = .ok placed) :
    Lies 0 (value window.x - 190) placed.1 ∧ AtLeast placed.2 64 := by
  have hgrid := gridWidth_lies hwidth
  have fits := Grid.fits_of_tracks ht
  obtain ⟨first, other, rfl, hspread⟩ := columns_tracks hwidth ht
  obtain ⟨hoffset, hsize⟩ := Grid.of_place hplaced
  constructor
  · refine (hspread.offset_lies (by norm_num) ?_ (List.mem_of_getElem? hoffset)).mono le_rfl ?_
    · linarith [hgrid.le_high, hwidth.le_high]
    · linarith [hgrid.le_high, hwidth.low_le]
  · have hstart : s.start.toNat < 3 := Grid.start_lt_trackCount fits hs
    have hcount : 0 < s.count.toNat := (fits s hs).positive
    obtain ⟨x, hx⟩ : ∃ x, x ∈ ((first :: List.replicate 2 other).drop s.start.toNat).take
        s.count.toNat := by
      refine List.exists_mem_of_length_pos ?_
      simp only [List.length_take, List.length_drop, List.length_cons, List.length_replicate]
      omega
    have hleast : ∀ y ∈ ((first :: List.replicate 2 other).drop s.start.toNat).take s.count.toNat,
        AtLeast y 64 := fun y hy =>
      .inr (hspread.least (List.mem_of_mem_drop (List.mem_of_mem_take hy)))
    have htotal := atLeast_total (fun y hy => (hleast y hy).mono (by norm_num)) hx
      representable_sixtyfour (hleast x hx)
    have hlimit : s.count.toNat - 1 ≤ 2 ^ 64 := (Nat.sub_le ..).trans s.count.toNat_lt.le
    have hgaps : AtLeast (margin * 0.5 * Float32.ofNat (s.count.toNat - 1)) 0 :=
      (RoundsTo.mul gap_lies.finite (isFinite_ofNat hlimit)).atLeast representable_zero (mul_nonneg
        (gap_lies.low_le.trans' (by norm_num)) (ofNat_within (by norm_num) hlimit).value_nonneg)
    rw [hsize]
    exact htotal.add hgaps representable_sixtyfour (by norm_num)

/-! ### Rows -/

/-- Rows of the grid of tiles. -/
def rowCount (g : Gallery) : Nat :=
  Grid.trackCount none ((g.tileGrid .zero).spans .vertical)

theorem row_lt_rowCount {area : Rect} {s : CellSpan}
    (hs : s ∈ (g.tileGrid area).spans .vertical) : s.start.toNat < g.rowCount := by
  have hcount : s.count = 1 := (rows_single hs).1
  have hstop : s.stop = s.start.toNat + 1 := congrArg (s.start.toNat + UInt64.toNat ·) hcount
  have hle := (Grid.le_foldl_stop ((g.tileGrid area).spans .vertical) 0).2 s hs
  exact (Nat.lt_of_lt_of_le (by omega) hle : s.start.toNat < g.rowCount)

/-- In each row there is a tile. -/
theorem exists_inRow (h : g.tiles.instances.length < UInt64.size) {area : Rect} {row : Nat}
    (hrow : row < g.rowCount) : ∃ s ∈ (g.tileGrid area).spans .vertical, s.start.toNat = row := by
  have rows : Rows (g.tileGrid area).cells := pack_rows (by rw [List.length_map]; exact h.le)
  obtain ⟨s, hs, hlt⟩ := Grid.exists_lt_stop hrow
  obtain ⟨c, hc, rfl⟩ := List.mem_map.mp hs
  have hcount : c.rows.count = 1 := (rows_single (g := g) (List.mem_map_of_mem hc)).1
  obtain ⟨k, hk⟩ := List.mem_iff_getElem?.mp hc
  have hle : row ≤ c.row := by
    have hstop : c.rows.stop = c.row + 1 := congrArg (c.row + UInt64.toNat ·) hcount
    change row < c.rows.stop at hlt
    omega
  obtain ⟨d, hd, hrow, -⟩ := (rows.upTo hk).1 row hle
  exact ⟨d.rows, List.mem_map_of_mem (f := (Cell.along · .vertical)) hd, hrow⟩

theorem rows_tracks (h : g.tiles.instances.length < UInt64.size) {t : Grid.Tracks}
    (hcount : g.rowCount = n + 1)
    (ht : (g.tileGrid (areas window).grid).tracks .vertical = .ok t) :
    ∃ first other, t = ⟨first :: List.replicate n other,
        Grid.offsets (margin * 0.5) 0 (first :: List.replicate n other), margin * 0.5⟩ ∧
      SolvesAlike rowTrack n
        (rowSpace window.y n - total (List.replicate (n + 1) rowTrack.base)) first other := by
  have hmerge : tileHeight.merge tileHeight = tileHeight := by decide
  have hmax : greater tileHeight.max tileHeight.min = tileHeight.max := by decide
  refine Grid.tracks_alike ht tileHeight_base? hcount fun track htrack => ?_
  refine Grid.trackConstraint_alike hmerge hmax (fun s hs _ => (rows_single hs).2) (.inr ?_)
  obtain ⟨s, hs, hstart⟩ := exists_inRow h (hcount ▸ htrack)
  exact ⟨s, hs, (rows_single hs).1, hstart⟩

/-- A tile lies in one row, so that no gap is added to its height. -/
theorem row_placed {area : Rect} {sizes : List Float32} {s : CellSpan}
    {placed : Float32 × Float32} (hs : s ∈ (g.tileGrid area).spans .vertical)
    (hplaced : Grid.Tracks.place ⟨sizes, Grid.offsets (margin * 0.5) 0 sizes, margin * 0.5⟩ s =
      .ok placed) : placed.1 ∈ Grid.offsets (margin * 0.5) 0 sizes ∧ ∃ height ∈ sizes,
        placed.2 = height + margin * 0.5 * Float32.ofNat 0 := by
  obtain ⟨hoffset, hsize⟩ := Grid.of_place hplaced
  have hlt : s.start.toNat < sizes.length := by
    have hlength := (List.getElem?_eq_some_iff.mp hoffset).choose
    rwa [Grid.length_offsets] at hlength
  have hcount : s.count.toNat = 1 := congrArg UInt64.toNat (rows_single hs).1
  refine ⟨List.mem_of_getElem? hoffset, sizes[s.start.toNat], List.getElem_mem hlt, ?_⟩
  rw [hsize, hcount, List.drop_eq_getElem_cons hlt]
  rfl

section

variable (h : g.tiles.instances.length < UInt64.size) {t : Grid.Tracks} {s : CellSpan}
  {placed : Float32 × Float32} (hheight : Lies 320 10000 window.y)
  (ht : (g.tileGrid (areas window).grid).tracks .vertical = .ok t)
  (hs : s ∈ (g.tileGrid (areas window).grid).spans .vertical) (hplaced : t.place s = .ok placed)

include h ht hs hplaced in
/-- How the rows of a tile are solved, and where the tile gets its place from. -/
theorem row_solved : ∃ n first other, g.rowCount = n + 1 ∧ n ≤ 2 ^ 64 ∧
    SolvesAlike rowTrack n
      (rowSpace window.y n - total (List.replicate (n + 1) rowTrack.base)) first other ∧
    placed.1 ∈ Grid.offsets (margin * 0.5) 0 (first :: List.replicate n other) ∧
    ∃ height ∈ first :: List.replicate n other,
      placed.2 = height + margin * 0.5 * Float32.ofNat 0 := by
  obtain ⟨n, hcount⟩ := Nat.exists_eq_succ_of_ne_zero (Nat.ne_zero_of_lt (row_lt_rowCount hs))
  obtain ⟨u, -, hlast⟩ : ∃ s ∈ (g.tileGrid .zero).spans .vertical, s.start.toNat = n :=
    exists_inRow h (by omega)
  obtain ⟨first, other, rfl, halike⟩ := rows_tracks h hcount ht
  obtain ⟨hoffset, hsize⟩ := row_placed hs hplaced
  exact ⟨n, first, other, hcount, hlast ▸ u.start.toNat_lt.le, halike, hoffset, hsize⟩

include h hheight ht hs hplaced

/-- Rows that the window is too low for. -/
theorem row_cramped (hcramped : value window.y ≤ 24 * g.rowCount + 80) : AtMost placed.2 16 := by
  obtain ⟨n, first, other, hcount, hn, halike, -, height, hmem, hsize⟩ :=
    row_solved h ht hs hplaced
  obtain ⟨hspace, hvalue⟩ := value_rowSpace hheight hn
  rw [hcount] at hcramped
  push_cast at hcramped
  have hn0 : (0 : ℚ) ≤ n := n.cast_nonneg
  have hsmall : n + 1 ≤ 2 ^ 18 ∧ value (rowSpace window.y n) ≤ 16 * (n + 1) ∨
      value (rowSpace window.y n) = 0 := by
    rw [hvalue]
    rcases Nat.lt_or_ge (2 ^ 18) (n + 1) with hmany | hfew
    · have hmany' : (2 : ℚ) ^ 18 ≤ n := by exact_mod_cast Nat.le_of_lt_succ hmany
      exact .inr (max_eq_right (by linarith [hheight.le_high]))
    · exact .inl ⟨hfew, max_le (by linarith) (by positivity)⟩
  obtain ⟨hfirst, hother⟩ := rows_cramped halike hspace (hvalue ▸ le_max_right ..) hsmall
  have hmost : AtMost height 16 := by
    rcases List.mem_cons.mp hmem with rfl | hmem
    · exact hfirst
    · exact List.eq_of_mem_replicate hmem ▸ hother
  rw [hsize]
  exact hmost.add noGap_lies.atMost representable_sixteen (by norm_num)

/-- Rows that are given at least 16 pixels. They are higher than that if roundings do not take up
    what is above it. -/
theorem row_roomy (hroomy : 24 * g.rowCount + 80 ≤ value window.y) :
    Lies 0 (value window.y - 86) placed.1 ∧ placed.2.isFinite = true ∧
      (24 * g.rowCount + 80 + g.rowCount * (g.rowCount + 1) * (g.rowCount + 4) / 2 ^ 18 ≤
        value window.y → 16 < value placed.2) := by
  obtain ⟨n, first, other, hcount, hn, halike, hoffset, height, hmem, hsize⟩ :=
    row_solved h ht hs hplaced
  obtain ⟨hspace, hvalue⟩ := value_rowSpace hheight hn
  obtain ⟨N, hN⟩ : ∃ N : ℚ, N = n + 1 := ⟨_, rfl⟩
  have hrows : (g.rowCount : ℚ) = N := by rw [hcount, hN]; push_cast; rfl
  rw [hrows] at hroomy ⊢
  have hone := count_pos hN
  have hmany : n + 1 ≤ 512 := by
    have hmany' : ((n + 1 : Nat) : ℚ) ≤ 512 := by
      push_cast
      rw [← hN]
      linarith [hheight.le_high]
    exact_mod_cast hmany'
  obtain ⟨a, ha⟩ : ∃ a, a = value window.y - 80 - 8 * N := ⟨_, rfl⟩
  have hvalue' : value (rowSpace window.y n) = a := by
    rw [hvalue, max_eq_left] <;> linarith
  have hmost : a ≤ 10000 := by linarith [hheight.le_high]
  have hroom : 16 * N ≤ a := by linarith
  have hspread {low : ℚ} (hrepresentable : Representable low) (hlow : 0 ≤ low) (hlow' : low ≤ 64)
      (hleast : low = 0 ∨ low + (N ^ 2 + 5 * N + 3) / 2 ^ 18 ≤ a / N) : Spread low n a first other :=
    rows_spread hN hmany hspace hvalue' hmost hroom hrepresentable hlow hlow' hleast halike
  have hspread0 := hspread representable_zero le_rfl (by norm_num) (.inl rfl)
  have hfinite := (hspread0.least hmem).1
  have hexact : (height + margin * 0.5 * Float32.ofNat 0).isFinite = true ∧
      value (height + margin * 0.5 * Float32.ofNat 0) = value height := by
    have hround := RoundsTo.add hfinite noGap_lies.finite
    rw [noGap_lies.value_eq, add_zero] at hround
    exact hround.exact (value_representable height)
  rw [hsize]
  refine ⟨?_, hexact.1, fun hspacious => ?_⟩
  · have hn' : (n : ℚ) + 1 ≤ 512 := by exact_mod_cast hmany
    exact (hspread0.offset_lies le_rfl (by linarith) hoffset).mono le_rfl (by linarith)
  · have hrepresentable : Representable (16 + 1 / 2 ^ 18) :=
      ⟨2 ^ 22 + 1, -18, by norm_num, by norm_num, by norm_num, by norm_num⟩
    have hpart : 16 + 1 / 2 ^ 18 + (N ^ 2 + 5 * N + 3) / 2 ^ 18 ≤ a / N := by
      rw [le_div_iff₀ (one_pos.trans_le hone)]
      linarith
    have hspread16 := hspread hrepresentable (by norm_num) (by norm_num) (.inr hpart)
    rw [hexact.2]
    linarith [(hspread16.least hmem).2]

end

end Gallery

end RetainedScene
