import RetainedScene.Proofs.Number.Root
import RetainedScene.Proofs.Number.Zeros

/-!
# Magnitudes

What squares, their sums and the roots of those are: numbers without a sign, infinite at most.
Among them zero is a single number, which can be added or left out without changing a bit.
-/

set_option autoImplicit false

namespace RetainedScene.Binary32

open Float.Model (UnpackedFloat)
open Float.Model.UnpackedFloat

/-- Not below zero, not NaN, and not the negative zero. -/
structure Magnitude (x : Float32) : Prop where
  nonneg : AtLeast x 0
  plain : x ≠ -0

variable {x y : Float32} {xs : List Float32}

theorem value_zero : value 0 = 0 := rfl

theorem ne_neg_zero_of_pos {q : ℚ} (h : AtLeast x q) (hq : 0 < q) : x ≠ -0 := by
  rintro rfl
  have : value (-0) = 0 := rfl
  exact absurd (h.le_value rfl) (by rw [this]; exact not_le.mpr hq)

theorem sign_mul_self (sign : Sign) : sign * sign = .positive := by
  cases sign <;> rfl

/-- Infinities take the sign of the product, which is positive for a square. -/
theorem IsInfinite.mul_self {sign : Sign} (hx : IsInfinite sign x) :
    IsInfinite .positive (x * x) := by
  refine isInfinite_pack (u := x.toModel.unpack.mul .binary32 x.toModel.unpack) ?_
  rw [show x.toModel.unpack = .infinity sign from hx, UnpackedFloat.mul, sign_mul_self]

theorem mul_self_magnitude (hx : x.isNaN = false) : Magnitude (x * x) := by
  rcases finite_or hx with hx | ⟨s, hx⟩
  · refine ⟨(RoundsTo.mul hx hx).atLeast representable_zero (mul_self_nonneg _), ?_⟩
    change Float32.ofModel (.pack (x.toModel.unpack.mul .binary32 x.toModel.unpack)) ≠ -0
    obtain ⟨s, hu⟩ | ⟨s, m, e, hm, hu⟩ := zero_or_finite hx <;>
      rw [hu, UnpackedFloat.mul, sign_mul_self]
    · decide
    · exact round_ne_neg_zero (m * m) (e + e) .exact
  · exact ⟨.inl hx.mul_self, ne_neg_zero_of_pos (.inl hx.mul_self) one_pos⟩

/-- Where neither is the negative zero, an exact result determines the number. -/
theorem RoundsTo.unique {v : ℚ} (hx : RoundsTo v x) (hy : RoundsTo v y) (hx' : Magnitude x)
    (hy' : Magnitude y) : x = y :=
  eq_of_le_of_le hx'.plain hy'.plain (hx.mono hy le_rfl) (hy.mono hx le_rfl)

/-- A number less itself is the positive zero. -/
theorem sub_self (hx : x.isFinite = true) : x - x = 0 := by
  change Float32.ofModel (.pack (x.toModel.unpack.sub .binary32 x.toModel.unpack)) = 0
  obtain ⟨s, hu⟩ | ⟨s, m, e, hm, hu⟩ := zero_or_finite hx <;> rw [hu]
  · cases s <;> rfl
  · simp only [UnpackedFloat.sub, Int.sub_self]
    rfl

namespace Magnitude

theorem zero : Magnitude 0 :=
  ⟨atLeast_zero, by decide⟩

theorem of_pos (hx : x.isFinite = true) (hpos : 0 < value x) : Magnitude x :=
  ⟨(atLeast_value hx).mono hpos.le, ne_neg_zero_of_pos (atLeast_value hx) hpos⟩

theorem ofNat (n : Nat) : Magnitude (Float32.ofNat n) := by
  rcases Nat.eq_zero_or_pos n with rfl | hpos
  · exact zero
  · have hone : AtLeast (Float32.ofNat n) 1 :=
      (RoundsTo.ofNat n).atLeast (representable_nat (by norm_num)) (by exact_mod_cast hpos)
    exact ⟨hone.mono zero_le_one, ne_neg_zero_of_pos hone one_pos⟩

theorem isNaN (h : Magnitude x) : x.isNaN = false :=
  h.nonneg.isNaN

theorem zero_le (h : Magnitude x) : 0 ≤ x :=
  atLeast_zero_iff.mp h.nonneg

theorem eq_zero (h : Magnitude x) (hx : x ≤ 0) : x = 0 :=
  eq_of_le_of_le h.plain (by decide) hx h.zero_le

theorem add (hx : Magnitude x) (hy : Magnitude y) : Magnitude (x + y) := by
  have hsum := hx.nonneg.add_nonneg hy.nonneg
  refine ⟨hsum, fun hzero => ?_⟩
  -- A sum that is a zero is not less than its terms, so both of them are zero.
  have hx0 : x ≤ 0 := by
    have := le_add_of_nonneg hx.isNaN hy.nonneg hsum.isNaN
    rw [hzero] at this
    exact le_trans this (by decide)
  have hy0 : y ≤ 0 := by
    have := le_nonneg_add hx.nonneg hy.nonneg
    rw [hzero] at this
    exact le_trans this (by decide)
  rw [hx.eq_zero hx0, hy.eq_zero hy0] at hzero
  exact absurd hzero (by decide)

theorem add_zero (h : Magnitude x) : x + 0 = x := by
  have hsum := h.add zero
  refine eq_of_le_of_le hsum.plain h.plain ?_ (le_add_of_nonneg h.isNaN atLeast_zero hsum.isNaN)
  rcases h.nonneg with hx | ⟨hx, -⟩
  · exact hx.ge hsum.isNaN
  · exact ((atMost_value hx).add (atMost_value rfl) (value_representable x) (by simp [value_zero])).le
      (atLeast_value hx)

theorem zero_add (h : Magnitude x) : 0 + x = x :=
  eq_of_le_of_le (zero.add h).plain h.plain (zero_add_le (by decide) h.nonneg)
    (le_nonneg_add atLeast_zero h.nonneg)

/-- Zero keeps its sign in a quotient by a positive number. -/
theorem div (h : Magnitude x) (hx : x.isFinite = true) (hy : y.isFinite = true)
    (hpos : 0 < value y) : Magnitude (x / y) := by
  refine ⟨h.nonneg.div hy hpos, ?_⟩
  obtain ⟨n, f, hn, hv⟩ := exists_positive hy hpos
  change Float32.ofModel (.pack (x.toModel.unpack.div .binary32 y.toModel.unpack)) ≠ -0
  rw [hv]
  by_cases hzero : x ≤ 0
  · rw [h.eq_zero hzero]
    change Float32.ofModel (.pack (.zero .positive)) ≠ -0
    decide
  · have hx0 : 0 < value x := (value_pos_iff hx).mpr (lt_of_not_le h.isNaN rfl hzero)
    obtain ⟨m, e, hm, hu⟩ := exists_positive hx hx0
    rw [hu]
    exact round_ne_neg_zero _ _ _

theorem sqrt (h : Magnitude x) : Magnitude x.sqrt := by
  by_cases hx : x ≤ 0
  · rw [h.eq_zero hx]
    exact zero
  · have hroot := atLeast_sqrt h.nonneg hx
    exact ⟨hroot.mono (by positivity), ne_neg_zero_of_pos hroot (by positivity)⟩

/-- A root that is not zero is not a tiny number either. -/
theorem atLeast_sqrt_of_pos (h : Magnitude x) (hroot : ¬ x.sqrt ≤ 0) :
    AtLeast x.sqrt (2 ^ (-75 : ℤ)) := by
  refine atLeast_sqrt h.nonneg fun hx => hroot ?_
  rw [h.eq_zero hx]
  decide

theorem sqrt_within {q : ℚ} (h : Magnitude x) (hx : AtMost x (q ^ 2)) (hq : 0 ≤ q)
    (hr : Representable (2 * q)) : Within (2 * q) x.sqrt := by
  refine ⟨h.sqrt.nonneg, ?_⟩
  by_cases hzero : x ≤ 0
  · rw [h.eq_zero hzero]
    exact .inr ⟨rfl, mul_nonneg zero_le_two hq⟩
  · have hfinite := hx.isFinite h.nonneg
    have hpos := (value_pos_iff hfinite).mpr (lt_of_not_le h.isNaN rfl hzero)
    obtain ⟨v, hround, -, hroots⟩ := RoundsTo.sqrt_between hfinite hpos
    exact hround.atMost hr (hroots q hq (hx.value_le hfinite))

theorem total (h : ∀ x ∈ xs, Magnitude x) : Magnitude (Scalar.total xs) :=
  Scalar.total_of (P := Magnitude) zero h (fun _ hx => hx) fun _ _ hx hy => hx.add hy

theorem total_eq_foldl (h : ∀ x ∈ xs, Magnitude x) : Scalar.total xs = xs.foldl (· + ·) 0 := by
  cases xs with
  | nil => rfl
  | cons x rest => rw [Scalar.total, List.foldl_cons, (h x List.mem_cons_self).zero_add]

end Magnitude

end RetainedScene.Binary32
