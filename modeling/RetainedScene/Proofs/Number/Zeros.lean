import RetainedScene.Proofs.Number.Monotone

/-!
# The two zeros

Only the zeros are equal in the order without being the same number. Adding one of them to a number
that is not negative does not move it.
-/

set_option autoImplicit false

namespace RetainedScene.Binary32

variable {x y z : Float32}

theorem beq_of_le_of_le (hxy : x ≤ y) (hyx : y ≤ x) : (x == y) = true := by
  obtain ⟨hx, hy, hle⟩ := le_iff_rank.mp hxy
  obtain ⟨-, -, hge⟩ := le_iff_rank.mp hyx
  change (x.toModel.unpack.compare y.toModel.unpack == some .eq) = true
  rw [compare_rankOf hx hy, beq_iff_eq, Option.some.injEq, compare_eq_iff_eq]
  exact le_antisymm hle hge

/-- Where neither number is the negative zero, the order tells them apart. -/
theorem eq_of_le_of_le (hx : x ≠ -0) (hy : y ≠ -0) (hxy : x ≤ y) (hyx : y ≤ x) : x = y := by
  obtain ⟨-, -, heq | ⟨-, hzero⟩ | ⟨hzero, -⟩⟩ :=
    Float32.beq_iff_ne_nan_and_eq.mp (beq_of_le_of_le hxy hyx)
  · exact heq
  · exact absurd hzero hy
  · exact absurd hzero hx

theorem finite_of_beq_zero (hz : (z == 0) = true) : z.isFinite = true ∧ value z = 0 := by
  obtain ⟨-, -, rfl | ⟨rfl, -⟩ | ⟨rfl, -⟩⟩ := Float32.beq_iff_ne_nan_and_eq.mp hz <;>
    exact ⟨rfl, rfl⟩

theorem zero_add_le (hz : (z == 0) = true) (hx : AtLeast x 0) : z + x ≤ x := by
  obtain ⟨hfinite, hvalue⟩ := finite_of_beq_zero hz
  rcases hx with hx | ⟨hx, -⟩
  · exact hx.ge (IsInfinite.finite_add hfinite hx).isNaN
  · have hsum : AtMost (z + x) (value x) :=
      (atMost_value hfinite).add (atMost_value hx) (value_representable x) (by simp [hvalue])
    exact hsum.le (atLeast_value hx)

end RetainedScene.Binary32
