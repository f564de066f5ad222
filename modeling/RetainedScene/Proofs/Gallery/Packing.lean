import RetainedScene.Gallery.Arrangement
import RetainedScene.Proofs.Layout.Conditions

/-!
# Packed tiles

Tiles never reach past the declared columns, and no tile opens more than one row. So the cells of
tiles whose number can be counted pass all checks of the grid.
-/

set_option autoImplicit false

namespace RetainedScene.Gallery

variable {c : Cursor} {span : Nat}

theorem free_solvable : Constraint.free.Solvable :=
  Constraint.solvable_of_flaw? (by decide +kernel)

theorem tileHeight_solvable : tileHeight.Solvable :=
  Constraint.solvable_of_flaw? (by decide +kernel)

/-- Number of rows that have been begun. -/
def Cursor.opened (c : Cursor) : Nat :=
  if c.column = 0 then c.row else c.row + 1

theorem tileColumns_bounds (wide : Bool) : 0 < tileColumns wide ∧ tileColumns wide < gridColumns := by
  cases wide <;> decide

theorem Cursor.fit_column (c : Cursor) (hspan : span < gridColumns) :
    (c.fit span).column + span ≤ gridColumns := by
  rw [fit]
  split
  · dsimp only
    omega
  · omega

/-- A new row is begun behind a tile only. -/
theorem Cursor.fit_row (c : Cursor) (hspan : span < gridColumns) : (c.fit span).row ≤ c.opened := by
  rw [fit, opened]
  split
  · rw [if_neg (by omega)]
  · split <;> omega

theorem Cursor.opened_past (hspan : 0 < span) : (c.past span).opened = c.row + 1 :=
  if_neg (by dsimp only [past]; omega)

theorem Cursor.toNat_ofNat_column (hspan : 0 < span) (hcolumn : c.column + span ≤ gridColumns) :
    (UInt64.ofNat c.column).toNat = c.column ∧ (UInt64.ofNat span).toNat = span := by
  rw [gridColumns] at hcolumn
  constructor <;> exact UInt64.toNat_ofNat_of_lt' (by rw [UInt64.size]; omega)

theorem Cursor.columns_fit (hspan : 0 < span) (hcolumn : c.column + span ≤ gridColumns) :
    (c.cell span).columns.Fits (some (UInt64.ofNat gridColumns)) := by
  obtain ⟨hstart, hcount⟩ := toNat_ofNat_column hspan hcolumn
  have hstop : (c.cell span).columns.stop = c.column + span :=
    (congrArg₂ (· + ·) hstart hcount)
  refine ⟨fun hzero => ?_, ?_, fun count hdeclared => ?_, free_solvable⟩
  · have hnone : (UInt64.ofNat span).toNat = 0 := congrArg UInt64.toNat hzero
    omega
  · rw [hstop, UInt64.size]
    rw [gridColumns] at hcolumn
    omega
  · obtain rfl := Option.some.inj hdeclared
    rw [hstop]
    exact hcolumn

theorem Cursor.rows_fit (span : Nat) (hrow : c.row + 1 < UInt64.size) :
    (c.cell span).rows.Fits none := by
  have hstart : (UInt64.ofNat c.row).toNat = c.row :=
    UInt64.toNat_ofNat_of_lt' (Nat.lt_of_succ_lt hrow)
  have hstop : (c.cell span).rows.stop = c.row + 1 := congrArg (· + 1) hstart
  have hcount : (c.cell span).rows.count ≠ 0 := show (1 : UInt64) ≠ 0 by decide
  exact ⟨hcount, hstop ▸ hrow, fun _ hdeclared => absurd hdeclared.symm (Option.some_ne_none _),
    tileHeight_solvable⟩

theorem length_pack (cursor : Cursor) (wides : List Bool) :
    (pack cursor wides).length = wides.length := by
  induction wides generalizing cursor with
  | nil => rfl
  | cons wide rest ih => exact congrArg (· + 1) (ih _)

theorem pack_fits {cursor : Cursor} {wides : List Bool}
    (h : cursor.opened + wides.length < UInt64.size) : ∀ cell ∈ pack cursor wides,
      cell.columns.Fits (some (UInt64.ofNat gridColumns)) ∧ cell.rows.Fits none := by
  induction wides generalizing cursor with
  | nil => simp [pack]
  | cons wide rest ih =>
    obtain ⟨hpos, hspan⟩ := tileColumns_bounds wide
    have hcolumn := cursor.fit_column hspan
    have hrow := cursor.fit_row hspan
    rw [List.length_cons] at h
    rw [pack, List.forall_mem_cons]
    refine ⟨⟨Cursor.columns_fit hpos hcolumn, Cursor.rows_fit _ (by omega)⟩, ih ?_⟩
    rw [Cursor.opened_past hpos]
    omega

end RetainedScene.Gallery
