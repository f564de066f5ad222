import RetainedScene.Gallery.Arrangement
import RetainedScene.Proofs.Layout.CellSet
import RetainedScene.Proofs.Number.Overflow

/-!
# The two areas of a gallery

The width is doubled before it is divided, so that two thirds of it become infinite before anything
else does. Where they are not, neither is the ring, nor any point on it.
-/

set_option autoImplicit false

namespace RetainedScene

open Binary32 Scalar

/-- At the angles of a ring's points neither function leaves the range from -1 to 1. -/
def Circle.Functions.Bounded (f : Circle.Functions) : Prop :=
  ∀ index < Gallery.ringPoints,
    (-1 ≤ f.cosine (Gallery.turn Gallery.ringPoints index) ∧
      f.cosine (Gallery.turn Gallery.ringPoints index) ≤ 1) ∧
    -1 ≤ f.sine (Gallery.turn Gallery.ringPoints index) ∧
      f.sine (Gallery.turn Gallery.ringPoints index) ≤ 1

instance (f : Circle.Functions) : Decidable f.Bounded :=
  inferInstanceAs (Decidable (∀ index < Gallery.ringPoints, _))

theorem Circle.functions_bounded : Circle.functions.Bounded := by
  decide +kernel

namespace Gallery

/-- A length in units of 2¹²³. From 32 units on lengths are too large to be numbers. -/
def reach (n : Nat) : ℚ :=
  n * 2 ^ 123

theorem representable_reach {n : Nat} (hn : n < 32) : Representable (reach n) := by
  have hlimit : |2 ^ 123 * (n : ℚ)| < 2 ^ 128 := by
    have hn' : (n : ℚ) < 32 := by exact_mod_cast hn
    rw [abs_of_nonneg (by positivity)]
    calc 2 ^ 123 * (n : ℚ) < 2 ^ 123 * 32 := by gcongr
      _ = 2 ^ 128 := by norm_num
  rw [reach, mul_comm]
  exact (representable_nat (by omega)).two_pow_mul 123 hlimit

theorem reach_add (m n : Nat) : reach m + reach n = reach (m + n) := by
  rw [reach, reach, reach, Nat.cast_add, add_mul]

theorem reach_nonneg (n : Nat) : 0 ≤ reach n := by
  rw [reach]
  positivity

variable {x y width height center radius origin c : Float32} {m n : Nat} {q : ℚ}

/-- What is below zero, or no number, is brought up to zero. -/
theorem greater_zero_within (hq : 0 ≤ q) (h : x.isNaN = false → AtMost x q) :
    Within q (greater x 0) := by
  rcases greater_cases x (b := 0) rfl with ⟨hpos, heq⟩ | heq <;> rw [heq]
  · exact ⟨atLeast_zero_iff.mpr (le_of_lt hpos), h (lt_iff_rank.mp hpos).2.1⟩
  · exact .zero hq

theorem half_within (hx : Within (reach (2 * n)) x) (hn : n < 32) :
    Within (reach n) (x * 0.5) := by
  have hhalf : Within (1 / 2) (0.5 : Float32) :=
    .of_value (by decide +kernel) (by decide +kernel) value_half.le
  refine hx.mul hhalf (representable_reach hn) (le_of_eq ?_)
  rw [reach, reach, Nat.cast_mul]
  ring

/-! ### Widths and heights -/

theorem value_three : value (3 : Float32) = 3 :=
  value_ofNat (by norm_num)

theorem doubled_infinite (hx : x.isNaN = false) (h : ¬ AtMost x (reach 18)) :
    IsInfinite .positive (x * 2) := by
  have htwo : value (2 : Float32) = 2 := value_ofNat (by norm_num)
  rcases finite_or hx with hfinite | ⟨_ | _, hinfinite⟩
  · have hhigh : reach 18 < value x := lt_of_not_ge fun hle => h (.inr ⟨hfinite, hle⟩)
    refine (RoundsTo.mul hfinite (y := 2) rfl).isInfinite ?_
    rw [htwo]
    norm_num [reach] at hhigh ⊢
    linarith
  · exact absurd (.inl hinfinite) h
  · exact hinfinite.mul rfl (htwo ▸ two_pos)

theorem bodyWidth_atMost (h : (gridWidth width).isInf = false)
    (hnumber : (bodyWidth width).isNaN = false) : AtMost (bodyWidth width) (reach 18) := by
  by_contra hhigh
  have hquotient := (doubled_infinite hnumber hhigh).div (y := 3) rfl (value_three ▸ three_pos)
  have hinfinite : IsInfinite .positive (gridWidth width) :=
    hquotient.of_ge (Constraint.le_greater_left hquotient.isNaN rfl)
  rw [hinfinite.isInf] at h
  cases h

theorem gridWidth_within (h : (gridWidth width).isInf = false) :
    Within (reach 11) (gridWidth width) := by
  rcases greater_cases (bodyWidth width * 2 / 3) (b := 0) rfl with ⟨hpos, heq⟩ | heq
  · rw [gridWidth, heq] at h ⊢
    have hquotient := (isFinite_eq_not_isInf (lt_iff_rank.mp hpos).2.1).trans (congrArg not h)
    have hdouble := isFinite_of_div hquotient
    have hround := RoundsTo.div hdouble (y := 3) rfl (value_three ▸ three_ne_zero)
    refine .of_value hquotient (le_of_lt hpos) ?_
    refine (hround.atMost (representable_reach (by norm_num)) ?_).value_le hquotient
    have hlimit := (abs_lt.mp (abs_value_lt (bodyWidth width * 2))).2
    norm_num [value_three, reach] at hlimit ⊢
    linarith
  · rw [gridWidth, heq]
    exact .zero (reach_nonneg 11)

theorem ringWidth_within (h : (gridWidth width).isInf = false) :
    Within (reach 18) (ringWidth width) := by
  refine greater_zero_within (reach_nonneg 18) fun hnumber => ?_
  have hbody : (bodyWidth width).isNaN = false := by
    by_contra hnan
    rw [isNaN_sub_left (Bool.not_eq_false _ ▸ hnan)] at hnumber
    cases hnumber
  exact (bodyWidth_atMost h hbody).sub (gridWidth_within h).nonneg
    (representable_reach (by norm_num)) (sub_zero _).le

theorem bodyHeight_within (h : (bodyHeight height).isInf = false) :
    Within (reach 32) (bodyHeight height) := by
  have hnonneg : 0 ≤ bodyHeight height := Constraint.le_greater rfl
  have hfinite := (isFinite_eq_not_isInf (le_iff_rank.mp hnonneg).2.1).trans (congrArg not h)
  have hlimit := (abs_lt.mp (abs_value_lt (bodyHeight height))).2
  refine .of_value hfinite hnonneg (hlimit.le.trans (le_of_eq ?_))
  norm_num [reach]

theorem ringRadius_within {size : Vec2} (hx : Within (reach 18) size.x)
    (hy : Within (reach 32) size.y) : Within (reach 9) (ringRadius size) := by
  have hle := (Constraint.lesser_le hx.nonneg.isNaN hy.nonneg.isNaN).1
  have hlesser : Within (reach (2 * 9)) (lesser size.x size.y) :=
    ⟨Constraint.lesser_of (P := (AtLeast · 0)) hx.nonneg hy.nonneg, hx.atMost.of_le hle⟩
  have hdot : AtLeast dotSize 0 := atLeast_zero_iff.mpr (by decide)
  exact greater_zero_within (reach_nonneg 9) fun _ =>
    (half_within hlesser (by norm_num)).atMost.sub hdot (representable_reach (by norm_num))
      (sub_zero _).le

/-! ### Points of the ring -/

theorem abs_value_le_one (hlow : -1 ≤ c) (hhigh : c ≤ 1) : c.isFinite = true ∧ |value c| ≤ 1 := by
  have hone : value (1 : Float32) = 1 := (value_ofNat (n := 1) (by norm_num)).trans Nat.cast_one
  have hmost : AtMost c 1 := (hone ▸ atMost_value (x := 1) rfl : AtMost 1 1).of_le hhigh
  have hleast : AtLeast c (-1) :=
    (hone ▸ value_neg ▸ atLeast_value (x := -1) rfl : AtLeast (-1) (-1)).of_le hlow
  have hfinite := hmost.isFinite hleast
  exact ⟨hfinite, abs_le.mpr ⟨hleast.le_value hfinite, hmost.value_le hfinite⟩⟩

theorem add_isFinite (hx : x.isFinite = true) (hx' : |value x| ≤ reach m)
    (hy : y.isFinite = true) (hy' : |value y| ≤ reach n) (h : m + n < 32) :
    (x + y).isFinite = true ∧ |value (x + y)| ≤ reach (m + n) := by
  refine (RoundsTo.add hx hy).abs_value_le (representable_reach h) ?_
  rw [← reach_add]
  exact (abs_add_le ..).trans (add_le_add hx' hy')

/-- A coordinate of a point that is around a center at some distance from an origin. -/
theorem isFinite_coordinate (hcenter : Within (reach m) center) (hradius : Within (reach 9) radius)
    (horigin : Within (reach n) origin) (hlow : -1 ≤ c) (hhigh : c ≤ 1) (h : m + 9 + n < 32) :
    (center + c * radius + origin).isFinite = true := by
  obtain ⟨hfinite, hone⟩ := abs_value_le_one hlow hhigh
  have hproduct : |value c * value radius| ≤ reach 9 := by
    rw [abs_mul]
    calc |value c| * |value radius| ≤ 1 * reach 9 :=
          mul_le_mul hone hradius.abs_value_le (abs_nonneg _) zero_le_one
      _ = reach 9 := one_mul _
  obtain ⟨hfinite, hdistance⟩ :=
    (RoundsTo.mul hfinite hradius.isFinite).abs_value_le (representable_reach (by norm_num)) hproduct
  obtain ⟨hfinite, hpoint⟩ :=
    add_isFinite hcenter.isFinite hcenter.abs_value_le hfinite hdistance (by omega)
  exact (add_isFinite hfinite hpoint horigin.isFinite horigin.abs_value_le h).1

variable {f : Circle.Functions} {size : Vec2}

theorem twoMargins_eq : 2 * margin = Float32.ofNat 32 := by
  decide +kernel

theorem bodyTop_eq : bodyTop = Float32.ofNat 72 := by
  decide +kernel

theorem ringOrigin_within (h : (gridWidth width).isInf = false) :
    Within (reach 12) (2 * margin + gridWidth width) := by
  have hmargins : Within (reach 1) (2 * margin) := by
    rw [twoMargins_eq]
    exact (ofNat_within (b := 5) (by norm_num) le_rfl).mono (by norm_num [reach])
  exact hmargins.add (gridWidth_within h) (representable_reach (by norm_num)) (reach_add 1 11).le

theorem bodyTop_within : Within (reach 1) bodyTop := by
  rw [bodyTop_eq]
  exact (ofNat_within (b := 7) (by norm_num) (by norm_num)).mono (by norm_num [reach])

/-- All points of the ring are finite if the extent of the grid is. -/
theorem ringPoints_finite (hf : f.Bounded) (hwidth : (gridWidth size.x).isInf = false)
    (hheight : (bodyHeight size.y).isInf = false) :
    ∀ point ∈ circlePoints f ringPoints ((areas size).ring.size * (0.5 : Float32))
      (ringRadius (areas size).ring.size), (point + (areas size).ring.origin).isFinite = true := by
  intro point hpoint
  obtain ⟨index, hindex, rfl⟩ := List.mem_map.mp hpoint
  obtain ⟨⟨hcos, hcos'⟩, hsin, hsin'⟩ := hf index (List.mem_range.mp hindex)
  have hx := ringWidth_within hwidth
  have hy := bodyHeight_within hheight
  have hradius : Within (reach 9) (ringRadius (areas size).ring.size) := ringRadius_within hx hy
  exact (Bool.and_eq_true ..).mpr
    ⟨isFinite_coordinate (half_within (n := 9) hx (by norm_num)) hradius (ringOrigin_within hwidth)
        hcos hcos' (by norm_num),
      isFinite_coordinate (half_within (n := 16) hy (by norm_num)) hradius bodyTop_within
        hsin hsin' (by norm_num)⟩

end Gallery

end RetainedScene
