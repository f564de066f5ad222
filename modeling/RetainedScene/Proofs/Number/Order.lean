import Mathlib.Data.Int.Order.Basic
import Mathlib.Data.Prod.Lex
import RetainedScene.Number.Scalar

/-!
# The order of binary32 numbers

Numbers that are not NaN are ordered by their rank: first by sign and kind, then by exponent and
mantissa. Both zeros have one rank. A comparison with NaN fails.
-/

set_option autoImplicit false

namespace RetainedScene.Binary32

open Float.Model

/-- Kind, exponent and mantissa, so that larger numbers rank higher. -/
def rankOf : UnpackedFloat → ℤ ×ₗ ℤ ×ₗ ℤ
  | .notANumber => toLex (0, toLex (0, 0))
  | .infinity .negative => toLex (-2, toLex (0, 0))
  | .finite .negative mantissa exponent _ => toLex (-1, toLex (-exponent, -mantissa))
  | .zero _ => toLex (0, toLex (0, 0))
  | .finite .positive mantissa exponent _ => toLex (1, toLex (exponent, mantissa))
  | .infinity .positive => toLex (2, toLex (0, 0))

theorem compare_toLex (a b c a' b' c' : ℤ) :
    compare (toLex (a, toLex (b, c))) (toLex (a', toLex (b', c'))) =
      (compare a a').then ((compare b b').then (compare c c')) := by
  simp only [Prod.Lex.compare_def, compareLex, compareOn, ofLex_toLex]

theorem compare_neg (a b : ℤ) : compare (-a) (-b) = (compare a b).swap := by
  simp only [compare, compareOfLessAndEq]
  split_ifs <;> first | rfl | omega

theorem compare_natCast (m n : Nat) : compare (m : ℤ) n = compare m n := by
  simp only [compare, compareOfLessAndEq]
  split_ifs <;> first | rfl | omega

theorem compare_rankOf {u v : UnpackedFloat} (hu : u.isNaN = false) (hv : v.isNaN = false) :
    u.compare v = some (compare (rankOf u) (rankOf v)) := by
  cases u with
  | notANumber => cases hu
  | infinity s =>
    cases v with
    | notANumber => cases hv
    | infinity t => cases s <;> cases t <;> rfl
    | zero t => cases s <;> rfl
    | finite t m e hm => cases s <;> cases t <;> rfl
  | zero s =>
    cases v with
    | notANumber => cases hv
    | infinity t => cases t <;> rfl
    | zero t => rfl
    | finite t m e hm => cases t <;> rfl
  | finite s m e hm =>
    cases v with
    | notANumber => cases hv
    | infinity t => cases s <;> cases t <;> rfl
    | zero t => cases s <;> rfl
    | finite t m' e' hm' =>
      -- Signs alike: exponents before mantissas, and both the other way round below zero.
      cases s <;> cases t
      · have hranks : compare (rankOf (.finite .negative m e hm))
            (rankOf (.finite .negative m' e' hm')) = ((compare e e').then (compare m m')).swap := by
          refine (compare_toLex (-1) (-e) (-m) (-1) (-e') (-m')).trans ?_
          rw [compare_neg e, compare_neg m, compare_natCast, Ordering.swap_then]
          rfl
        exact congrArg some hranks.symm
      · rfl
      · rfl
      · have hranks : compare (rankOf (.finite .positive m e hm))
            (rankOf (.finite .positive m' e' hm')) = (compare e e').then (compare m m') := by
          refine (compare_toLex 1 e m 1 e' m').trans ?_
          rw [compare_natCast]
          rfl
        exact congrArg some hranks.symm

theorem compare_eq_none {u v : UnpackedFloat} (h : u.isNaN = true ∨ v.isNaN = true) :
    u.compare v = none := by
  rcases h with h | h
  · cases u <;> first | rfl | cases h
  · cases v with
    | notANumber => cases u <;> rfl
    | infinity t => cases h
    | zero t => cases h
    | finite t m e hm => cases h

def rank (x : Float32) : ℤ ×ₗ ℤ ×ₗ ℤ :=
  rankOf x.toModel.unpack

variable {x y z : Float32}

theorem lt_iff_rank : x < y ↔ x.isNaN = false ∧ y.isNaN = false ∧ rank x < rank y := by
  have hcompare : x < y ↔ x.toModel.unpack.compare y.toModel.unpack = some .lt :=
    decide_eq_true_iff.trans beq_iff_eq
  rw [hcompare, Float32.isNaN, Float32.isNaN, Float32.Model.isNaN, Float32.Model.isNaN, rank, rank]
  cases hx : x.toModel.unpack.isNaN with
  | true => simp only [compare_eq_none (.inl hx), reduceCtorEq, false_and]
  | false =>
    cases hy : y.toModel.unpack.isNaN with
    | true => simp only [compare_eq_none (.inr hy), reduceCtorEq, false_and, and_false]
    | false => simp only [compare_rankOf hx hy, Option.some.injEq, compare_lt_iff_lt, true_and]

theorem le_iff_rank : x ≤ y ↔ x.isNaN = false ∧ y.isNaN = false ∧ rank x ≤ rank y := by
  have hcompare : x ≤ y ↔ (x.toModel.unpack.compare y.toModel.unpack).any (·.isLE) = true :=
    decide_eq_true_iff
  rw [hcompare, Float32.isNaN, Float32.isNaN, Float32.Model.isNaN, Float32.Model.isNaN, rank, rank]
  cases hx : x.toModel.unpack.isNaN with
  | true => simp only [compare_eq_none (.inl hx), Option.any_none, reduceCtorEq, false_and]
  | false =>
    cases hy : y.toModel.unpack.isNaN with
    | true =>
      simp only [compare_eq_none (.inr hy), Option.any_none, reduceCtorEq, false_and, and_false]
    | false =>
      simp only [compare_rankOf hx hy, Option.any_some, Ordering.isLE_iff_ne_gt,
        compare_gt_iff_gt, not_lt, true_and]

theorem le_of_lt (h : x < y) : x ≤ y := by
  obtain ⟨hx, hy, hlt⟩ := lt_iff_rank.mp h
  exact le_iff_rank.mpr ⟨hx, hy, hlt.le⟩

theorem le_refl (hx : x.isNaN = false) : x ≤ x :=
  le_iff_rank.mpr ⟨hx, hx, le_rfl⟩

theorem le_of_not_lt (hx : x.isNaN = false) (hy : y.isNaN = false) (h : ¬ x < y) : y ≤ x :=
  le_iff_rank.mpr ⟨hy, hx, not_lt.mp fun hlt => h (lt_iff_rank.mpr ⟨hx, hy, hlt⟩)⟩

theorem lt_of_not_le (hx : x.isNaN = false) (hy : y.isNaN = false) (h : ¬ x ≤ y) : y < x :=
  lt_iff_rank.mpr ⟨hy, hx, not_le.mp fun hle => h (le_iff_rank.mpr ⟨hx, hy, hle⟩)⟩

theorem not_lt_of_le (h : x ≤ y) : ¬ y < x :=
  fun hlt => absurd (lt_iff_rank.mp hlt).2.2 (not_lt.mpr (le_iff_rank.mp h).2.2)

theorem lt_iff_not_le (hx : x.isNaN = false) (hy : y.isNaN = false) : x < y ↔ ¬ y ≤ x :=
  ⟨fun h hle => not_lt_of_le hle h, lt_of_not_le hy hx⟩

theorem le_trans (hxy : x ≤ y) (hyz : y ≤ z) : x ≤ z := by
  obtain ⟨hx, -, hxy⟩ := le_iff_rank.mp hxy
  obtain ⟨-, hz, hyz⟩ := le_iff_rank.mp hyz
  exact le_iff_rank.mpr ⟨hx, hz, hxy.trans hyz⟩

theorem lt_of_le_of_lt (hxy : x ≤ y) (hyz : y < z) : x < z := by
  obtain ⟨hx, -, hxy⟩ := le_iff_rank.mp hxy
  obtain ⟨-, hz, hyz⟩ := lt_iff_rank.mp hyz
  exact lt_iff_rank.mpr ⟨hx, hz, hxy.trans_lt hyz⟩

theorem isNaN_of_isFinite (h : x.isFinite = true) : x.isNaN = false := by
  change x.toModel.unpack.isFinite = true at h
  change x.toModel.unpack.isNaN = false
  cases hx : x.toModel.unpack with
  | notANumber =>
    rw [hx] at h
    cases h
  | infinity s => rfl
  | zero s => rfl
  | finite s m e hm => rfl

section

variable {low high : Float32}

theorem clamp_between (hx : x.isNaN = false) (h : low ≤ high) :
    low ≤ Scalar.clamp x low high ∧ Scalar.clamp x low high ≤ high := by
  obtain ⟨hlow, hhigh, -⟩ := le_iff_rank.mp h
  unfold Scalar.clamp
  split_ifs with hbelow habove
  · exact ⟨le_refl hlow, h⟩
  · exact ⟨h, le_refl hhigh⟩
  · exact ⟨le_of_not_lt hx hlow hbelow, le_of_not_lt hhigh hx habove⟩

theorem clamp_eq_self (hlow : low ≤ x) (hhigh : x ≤ high) : Scalar.clamp x low high = x := by
  rw [Scalar.clamp, if_neg (not_lt_of_le hlow), if_neg (not_lt_of_le hhigh)]

theorem clamp_mono (h : low ≤ high) (hxy : x ≤ y) :
    Scalar.clamp x low high ≤ Scalar.clamp y low high := by
  obtain ⟨hx, hy, -⟩ := le_iff_rank.mp hxy
  obtain ⟨hlow, hhigh, -⟩ := le_iff_rank.mp h
  obtain ⟨hleast, hmost⟩ := clamp_between hy h
  by_cases hbelow : x < low
  · rwa [Scalar.clamp, if_pos hbelow]
  have hylow : ¬ y < low :=
    fun hlt => not_lt_of_le (le_trans (le_of_not_lt hx hlow hbelow) hxy) hlt
  rw [Scalar.clamp, if_neg hbelow, Scalar.clamp, if_neg hylow]
  split_ifs with hxhigh hyhigh hyhigh
  · exact le_refl hhigh
  · exact absurd hxhigh (not_lt_of_le (le_trans hxy (le_of_not_lt hhigh hy hyhigh)))
  · exact le_of_not_lt hhigh hx hxhigh
  · exact hxy

end

end RetainedScene.Binary32
