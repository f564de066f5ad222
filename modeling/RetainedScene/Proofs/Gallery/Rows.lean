import Mathlib.Data.List.Chain
import RetainedScene.Proofs.Gallery.Packing

/-!
# Rows of tiles

Each tile goes directly behind the one before it, or to the start of the next row if it does not fit
there. From this step alone it follows that the tiles of a row lie side by side from the first column
on, that no row is left out, and that tiles come in reading order.
-/

set_option autoImplicit false

namespace RetainedScene

def Cell.row (c : Cell) : Nat :=
  c.rows.start.toNat

def Cell.column (c : Cell) : Nat :=
  c.columns.start.toNat

/-- The first column behind the cell. -/
def Cell.edge (c : Cell) : Nat :=
  c.columns.stop

theorem Cell.column_le_edge (c : Cell) : c.column ≤ c.edge :=
  Nat.le_add_right ..

namespace Gallery

/-- A tile's cell and the next one's. -/
inductive Follows (a b : Cell) : Prop
  | behind (row : b.row = a.row) (column : b.column = a.edge)
  | wrapped (tooWide : gridColumns < a.edge + b.columns.count.toNat) (row : b.row = a.row + 1)
      (column : b.column = 0)

/-- In an earlier row, or in the same row and nowhere beyond the other's start. -/
def Before (a b : Cell) : Prop :=
  a.row < b.row ∨ a.row = b.row ∧ a.edge ≤ b.column

section

variable {a b c : Cell} {cells : List Cell} {k : Nat}

theorem Before.trans (h : Before a b) (h' : Before b c) : Before a c := by
  have hb := b.column_le_edge
  rw [Before] at *
  omega

instance : Trans Before Before Before :=
  ⟨Before.trans⟩

theorem Follows.before (h : Follows a b) : Before a b := by
  cases h with
  | behind row column => exact .inr ⟨row.symm, column.ge⟩
  | wrapped _ row _ => exact .inl (by omega)

theorem pairwise_before (h : cells.IsChain Follows) : cells.Pairwise Before :=
  (h.imp fun _ _ => Follows.before).pairwise

theorem Follows.of_isChain (h : cells.IsChain Follows) (ha : cells[k]? = some a)
    (hb : cells[k + 1]? = some b) : Follows a b := by
  obtain ⟨hlt, rfl⟩ := List.getElem?_eq_some_iff.mp ha
  obtain ⟨hlt', rfl⟩ := List.getElem?_eq_some_iff.mp hb
  exact List.isChain_iff_getElem.mp h k hlt'

/-- Cells of tiles that have been packed from the first column of row 0 on. -/
structure Rows (cells : List Cell) : Prop where
  chain : cells.IsChain Follows
  first (c : Cell) : cells.head? = some c → c.row = 0 ∧ c.column = 0

/-- Up to a tile no row is left out, and its own row has no gap before it. -/
theorem Rows.upTo (h : Rows cells) (hc : cells[k]? = some c) :
    (∀ row ≤ c.row, ∃ d ∈ cells, d.row = row ∧ d.column = 0) ∧
      ∀ column < c.column, ∃ d ∈ cells, d.row = c.row ∧ d.column ≤ column ∧ column < d.edge := by
  induction k generalizing c with
  | zero =>
    obtain ⟨hrow, hcolumn⟩ := h.first c (List.head?_eq_getElem? ▸ hc)
    refine ⟨fun row hle => ⟨c, List.mem_of_getElem? hc, by omega, hcolumn⟩, fun column hlt => ?_⟩
    omega
  | succ k ih =>
    have hk : k < cells.length := Nat.lt_of_succ_lt (List.getElem?_eq_some_iff.mp hc).choose
    have ha : cells[k]? = some cells[k] := List.getElem?_eq_getElem hk
    obtain ⟨begun, covered⟩ := ih ha
    cases Follows.of_isChain h.chain ha hc with
    | behind row column =>
      rw [row, column]
      refine ⟨begun, fun col hlt => ?_⟩
      by_cases hcol : col < cells[k].column
      · exact covered col hcol
      · exact ⟨cells[k], List.getElem_mem hk, rfl, not_lt.mp hcol, hlt⟩
    | wrapped _ row column =>
      refine ⟨fun r hle => ?_, fun col hlt => by omega⟩
      by_cases hr : r ≤ cells[k].row
      · exact begun r hr
      · exact ⟨c, List.mem_of_getElem? hc, by omega, column⟩

end

/-! ### What packing makes -/

variable {cursor : Cursor} {wide : Bool} {wides : List Bool} {span : Nat}

/-- Where the next tile would begin if it fitted. -/
theorem Cursor.row_fit (c : Cursor) (span : Nat) :
    (c.fit span).row = c.row ∧ (c.fit span).column = c.column ∨
      gridColumns < c.column + span ∧ (c.fit span).row = c.row + 1 ∧ (c.fit span).column = 0 := by
  rw [fit]
  split
  case isTrue hlt => exact .inr ⟨hlt, rfl, rfl⟩
  case isFalse => exact .inl ⟨rfl, rfl⟩

theorem Cursor.cell_row (hrow : cursor.row < UInt64.size) : (cursor.cell span).row = cursor.row :=
  UInt64.toNat_ofNat_of_lt' hrow

theorem Cursor.cell_column (hspan : 0 < span) (hcolumn : cursor.column + span ≤ gridColumns) :
    (cursor.cell span).column = cursor.column :=
  (toNat_ofNat_column hspan hcolumn).1

theorem Cursor.cell_count (hspan : 0 < span) (hcolumn : cursor.column + span ≤ gridColumns) :
    (cursor.cell span).columns.count.toNat = span :=
  (toNat_ofNat_column hspan hcolumn).2

theorem Cursor.cell_edge (hspan : 0 < span) (hcolumn : cursor.column + span ≤ gridColumns) :
    (cursor.cell span).edge = cursor.column + span :=
  congrArg₂ (· + ·) (cell_column hspan hcolumn) (cell_count hspan hcolumn)

/-- Where the cell of a tile lies, if its row can be counted. -/
theorem pack_head (h : cursor.opened < UInt64.size) {c : Cell}
    (hc : (pack cursor (wide :: wides)).head? = some c) :
    c.row = (cursor.fit (tileColumns wide)).row ∧
      c.column = (cursor.fit (tileColumns wide)).column ∧
        c.columns.count.toNat = tileColumns wide := by
  obtain ⟨hpos, hspan⟩ := tileColumns_bounds wide
  have hcolumn := cursor.fit_column hspan
  obtain rfl := Option.some.inj hc
  exact ⟨Cursor.cell_row ((cursor.fit_row hspan).trans_lt h), Cursor.cell_column hpos hcolumn,
    Cursor.cell_count hpos hcolumn⟩

theorem pack_isChain (h : cursor.opened + wides.length ≤ UInt64.size) :
    (pack cursor wides).IsChain Follows := by
  induction wides generalizing cursor with
  | nil => exact .nil
  | cons wide rest ih =>
    obtain ⟨hpos, hspan⟩ := tileColumns_bounds wide
    have hcolumn := cursor.fit_column hspan
    have hrow := cursor.fit_row hspan
    rw [List.length_cons] at h
    have hopened := Cursor.opened_past (c := cursor.fit (tileColumns wide)) hpos
    rw [pack]
    refine List.isChain_cons.mpr ⟨fun next hnext => ?_, ih (by omega)⟩
    have hlt : (cursor.fit (tileColumns wide)).row < UInt64.size := by omega
    cases rest with
    | nil => cases hnext
    | cons wide' rest =>
      rw [List.length_cons] at h
      obtain ⟨hnextRow, hnextColumn, hnextCount⟩ := pack_head (by omega) hnext
      rcases ((cursor.fit (tileColumns wide)).past (tileColumns wide)).row_fit (tileColumns wide')
        with ⟨hsame, hbehind⟩ | ⟨htooWide, hnew, hzero⟩
      · refine .behind ?_ ?_
        · rw [hnextRow, hsame, Cursor.cell_row hlt, Cursor.past]
        · rw [hnextColumn, hbehind, Cursor.cell_edge hpos hcolumn, Cursor.past]
      · refine .wrapped ?_ ?_ ?_
        · rw [hnextCount, Cursor.cell_edge hpos hcolumn]
          exact htooWide
        · rw [hnextRow, hnew, Cursor.cell_row hlt, Cursor.past]
        · rw [hnextColumn, hzero]

theorem pack_rows (h : wides.length ≤ UInt64.size) : Rows (pack ⟨0, 0⟩ wides) where
  chain := pack_isChain (by simpa [Cursor.opened] using h)
  first c hc := by
    cases wides with
    | nil => cases hc
    | cons wide rest =>
      have hopened : (⟨0, 0⟩ : Cursor).opened < UInt64.size := by decide
      obtain ⟨hrow, hcolumn, -⟩ := pack_head hopened hc
      rw [hrow, hcolumn]
      cases wide <;> exact ⟨rfl, rfl⟩

theorem pack_sizes (cursor : Cursor) (wides : List Bool) :
    (pack cursor wides).map (fun c => (c.columns.count.toNat, c.rows.count.toNat)) =
      wides.map fun wide => (tileColumns wide, 1) := by
  induction wides generalizing cursor with
  | nil => rfl
  | cons wide rest ih =>
    obtain ⟨hpos, hspan⟩ := tileColumns_bounds wide
    have hcount := Cursor.cell_count hpos (cursor.fit_column hspan)
    rw [pack, List.map_cons, ih, List.map_cons]
    exact congrArg₂ List.cons (Prod.ext hcount rfl) rfl

/-- No tile is without width. -/
theorem column_lt_edge {c : Cell} (hc : c ∈ pack cursor wides) : c.column < c.edge := by
  have hsizes := pack_sizes cursor wides
  have hmem := hsizes ▸ List.mem_map_of_mem hc
  obtain ⟨wide, -, hwide⟩ := List.mem_map.mp hmem
  have hcount : tileColumns wide = c.columns.count.toNat := congrArg Prod.fst hwide
  have hpos := (tileColumns_bounds wide).1
  exact Nat.lt_add_of_pos_right (hcount ▸ hpos)

theorem edge_le {c : Cell} (hc : c ∈ pack cursor wides) : c.edge ≤ gridColumns := by
  induction wides generalizing cursor with
  | nil => cases hc
  | cons wide rest ih =>
    obtain ⟨hpos, hspan⟩ := tileColumns_bounds wide
    have hcolumn := cursor.fit_column hspan
    rcases List.mem_cons.mp hc with rfl | hc
    · exact (Cursor.cell_edge hpos hcolumn).trans_le hcolumn
    · exact ih hc

/-- The cells of tiles that are so wide, in the order of the tiles. -/
structure Packed (wides : List Bool) (cells : List Cell) : Prop where
  sizes : cells.map (fun c => (c.columns.count.toNat, c.rows.count.toNat)) =
    wides.map fun wide => (tileColumns wide, 1)
  inside : ∀ c ∈ cells, c.edge ≤ gridColumns
  disjoint : cells.Pairwise fun a b => a.row = b.row → a.edge ≤ b.column
  increasing : cells.Pairwise fun a b => a.row < b.row ∨ a.row = b.row ∧ a.column < b.column
  begun : ∀ c ∈ cells, ∀ row ≤ c.row, ∃ d ∈ cells, d.row = row ∧ d.column = 0
  gapless : ∀ c ∈ cells, ∀ column < c.column,
    ∃ d ∈ cells, d.row = c.row ∧ d.column ≤ column ∧ column < d.edge
  /-- A row is begun only by a tile that does not fit behind its predecessor. -/
  wraps (k : Nat) (a b : Cell) : cells[k]? = some a → cells[k + 1]? = some b → a.row ≠ b.row →
    gridColumns < a.edge + b.columns.count.toNat

theorem tileGrid_packed (g : Gallery) (area : Rect)
    (h : g.tiles.instances.length < UInt64.size) :
    Packed (g.tiles.instances.map Tile.wide) (g.tileGrid area).cells := by
  have rows : Rows (g.tileGrid area).cells := pack_rows (by rw [List.length_map]; exact h.le)
  have before := pairwise_before rows.chain
  refine ⟨pack_sizes .., fun c hc => edge_le hc, before.imp fun {a b} hbefore hrow => ?_,
    before.imp_of_mem fun {a b} ha _ hbefore => ?_, fun c hc => ?_, fun c hc => ?_,
    fun k a b ha hb hrow => ?_⟩
  · rcases hbefore with hlt | ⟨-, hle⟩
    · exact absurd hrow hlt.ne
    · exact hle
  · exact hbefore.imp_right fun ⟨hrow, hle⟩ => ⟨hrow, (column_lt_edge ha).trans_le hle⟩
  · obtain ⟨k, hk⟩ := List.mem_iff_getElem?.mp hc
    exact (rows.upTo hk).1
  · obtain ⟨k, hk⟩ := List.mem_iff_getElem?.mp hc
    exact (rows.upTo hk).2
  · cases Follows.of_isChain rows.chain ha hb with
    | behind row _ => exact absurd row.symm hrow
    | wrapped tooWide _ _ => exact tooWide

/-- Two narrow tiles, a wide one that does not fit behind them, another one that does not fit behind
    it, and two narrow ones, of which the last begins a row of its own. -/
def mixedTiles : List Bool :=
  [false, false, true, true, false, false]

def mixedGallery : Gallery :=
  { new "mixed" with
    tiles := { instances := mixedTiles.map fun wide => ⟨{}, {}, wide⟩ } }

theorem mixedGallery_packed :
    mixedGallery.tiles.instances.length < UInt64.size ∧
      Packed mixedTiles (mixedGallery.tileGrid .zero).cells ∧
      (mixedGallery.tileGrid .zero).cells.map (fun c => (c.row, c.column)) =
        [(0, 0), (0, 1), (1, 0), (2, 0), (2, 2), (3, 0)] :=
  ⟨by decide, tileGrid_packed mixedGallery .zero (by decide), by decide⟩

end Gallery

end RetainedScene
