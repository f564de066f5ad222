import RetainedScene.Proofs.Number.Shares

/-!
# Rounding errors

A result is off by at most half a unit in its last place: by one part in 2²⁴ of what is rounded, or
of the least normal number where that is more. A sum of tiny numbers is not rounded at all, so that
the error of a sum is such a part of the sum itself.
-/

set_option autoImplicit false

namespace RetainedScene.Binary32

open Float.Model.UnpackedFloat (Sign)

namespace Nearest

variable {v : ℚ} {c : Nat} {t : ℤ}

theorem half_unit (h : Nearest v c t) : 2 ^ 24 * |c * 2 ^ t - v| ≤ 2 ^ 23 * 2 ^ t := by
  have hunit : (0 : ℚ) < 2 ^ t := by positivity
  have hscaled : c * 2 ^ t - v = -(v / 2 ^ t - c) * 2 ^ t := by
    rw [neg_mul, sub_mul, div_mul_cancel₀ _ hunit.ne']
    ring
  rw [hscaled, abs_mul, abs_neg, abs_of_pos hunit]
  have := mul_le_mul_of_nonneg_right h.mantissa.near hunit.le
  linarith

theorem error (h : Nearest v c t) : 2 ^ 24 * |c * 2 ^ t - v| ≤ max v (1 / 2 ^ 126) := by
  refine h.half_unit.trans ?_
  rcases h.full with rfl | hfull
  · exact le_max_of_le_right (by norm_num)
  · exact le_max_of_le_left hfull

/-- At the least exponent a number that is counted in units is not rounded. -/
theorem error_of_units (h : Nearest v c t) {n : Nat} (hv : v = n * 2 ^ (-149 : ℤ)) :
    2 ^ 24 * |c * 2 ^ t - v| ≤ c * 2 ^ t := by
  rcases h.full_mantissa with rfl | hfull
  · have hle : c ≤ n := h.le_nat hv.le
    have hge : n ≤ c := h.nat_le hv.ge
    rw [hv, le_antisymm hle hge, Rat.sub_self, abs_zero, mul_zero]
    positivity
  · refine h.half_unit.trans ?_
    have hfull' : (2 : ℚ) ^ 23 ≤ c := by exact_mod_cast hfull
    gcongr

end Nearest

theorem abs_signed_sub (sign : Sign) (p q : ℚ) : |signed sign p - signed sign q| = |p - q| := by
  cases sign
  · rw [signed, signed, neg_sub_neg, abs_sub_comm]
  · rfl

variable {x y z : Float32} {v q : ℚ}

theorem RoundsTo.error (h : RoundsTo v x) (hx : x.isFinite = true) :
    2 ^ 24 * |value x - v| ≤ max |v| (1 / 2 ^ 126) := by
  obtain ⟨sign, q, c, t, rfl, hnearest, ⟨-, hvalue⟩ | ⟨hinfinite, -⟩⟩ := h
  · rw [hvalue, abs_signed_sub, abs_signed hnearest.nonneg]
    exact hnearest.error
  · rw [hinfinite.isFinite] at hx
    cases hx

theorem RoundsTo.abs_value_le (h : RoundsTo v x) (hq : Representable q) (hv : |v| ≤ q) :
    x.isFinite = true ∧ |value x| ≤ q := by
  obtain ⟨hlow, hhigh⟩ := abs_le.mp hv
  have hmost := h.atMost hq hhigh
  have hleast := h.atLeast hq.neg hlow
  have hfinite := hmost.isFinite hleast
  exact ⟨hfinite, abs_le.mpr ⟨hleast.le_value hfinite, hmost.value_le hfinite⟩⟩

theorem exists_int_units (hx : x.isFinite = true) : ∃ n : ℤ, value x = n * 2 ^ (-149 : ℤ) := by
  rw [value_eq_units hx]
  split_ifs
  · exact ⟨-(units x : ℤ), by simp [signed]⟩
  · exact ⟨units x, by simp [signed]⟩

/-- The error of a sum, of which nothing is lost below the least normal number. -/
theorem error_add (hx : x.isFinite = true) (hy : y.isFinite = true)
    (hsum : (x + y).isFinite = true) :
    2 ^ 24 * |value (x + y) - (value x + value y)| ≤ |value (x + y)| := by
  obtain ⟨m, hm⟩ := exists_int_units hx
  obtain ⟨n, hn⟩ := exists_int_units hy
  obtain ⟨sign, q, c, t, hexact, hnearest, ⟨-, hvalue⟩ | ⟨hinfinite, -⟩⟩ := RoundsTo.add hx hy
  · have hunit : (0 : ℚ) < 2 ^ (-149 : ℤ) := by positivity
    have hunits : q = (m + n).natAbs * 2 ^ (-149 : ℤ) := by
      have habs := congrArg abs hexact
      rw [abs_signed hnearest.nonneg, hm, hn, ← add_mul, abs_mul, abs_of_pos hunit] at habs
      rw [← habs, Nat.cast_natAbs]
      push_cast
      rfl
    rw [hexact, hvalue, abs_signed_sub, abs_signed (by positivity)]
    exact hnearest.error_of_units hunits
  · rw [hinfinite.isFinite] at hsum
    cases hsum

theorem error_sub (hx : x.isFinite = true) (hy : y.isFinite = true)
    (hdiff : (x - y).isFinite = true) :
    2 ^ 24 * |value (x - y) - (value x - value y)| ≤ |value (x - y)| := by
  rw [sub_eq_add_neg] at hdiff ⊢
  have herror := error_add hx (isFinite_neg.trans hy) hdiff
  rwa [value_neg, ← Rat.sub_eq_add_neg] at herror

/-- The error of a quotient, in terms of what is divided. -/
theorem error_div (hx : x.isFinite = true) (hy : y.isFinite = true) (hnonneg : 0 ≤ value x)
    (hpos : 0 < value y) (hquotient : (x / y).isFinite = true) :
    2 ^ 24 * |value (x / y) * value y - value x| ≤ value x + 1 / 2 ^ 126 * value y := by
  have hshare : 0 ≤ value x / value y := div_nonneg hnonneg hpos.le
  have herror : 2 ^ 24 * |value (x / y) - value x / value y| ≤
      value x / value y + 1 / 2 ^ 126 := by
    refine ((RoundsTo.div hx hy hpos.ne').error hquotient).trans ?_
    rw [abs_of_nonneg hshare]
    exact max_le_add_of_nonneg hshare (by positivity)
  have hscaled : value (x / y) * value y - value x =
      (value (x / y) - value x / value y) * value y := by
    rw [sub_mul, div_mul_cancel₀ _ hpos.ne']
  calc 2 ^ 24 * |value (x / y) * value y - value x|
      = 2 ^ 24 * |value (x / y) - value x / value y| * value y := by
        rw [hscaled, abs_mul, abs_of_pos hpos, mul_assoc]
    _ ≤ (value x / value y + 1 / 2 ^ 126) * value y := by gcongr
    _ = value x + 1 / 2 ^ 126 * value y := by rw [add_mul, div_mul_cancel₀ _ hpos.ne']

/-! ### Numbers that differ -/

theorem apart_of_pos (hx : x.isFinite = true) (hy : y.isFinite = true) (hx0 : 0 < value x)
    (hy0 : 0 < value y) (hne : value x ≠ value y) :
    value y ≤ 2 ^ 24 * |value x - value y| := by
  have hbelow {x y : Float32} (hx : x.isFinite = true) (hy : y.isFinite = true)
      (hx0 : 0 < value x) (hlt : value x < value y) : value y ≤ 2 ^ 24 * (value y - value x) := by
    have := le_belowOne_mul hx hy (le_of_lt ((value_pos_iff hx).mp hx0)) ((value_lt_iff hx hy).mp hlt)
    rw [belowOne] at this
    linarith
  rcases hne.lt_or_gt with hlt | hgt
  · rw [abs_of_neg (by linarith), neg_sub]
    exact hbelow hx hy hx0 hlt
  · rw [abs_of_pos (by linarith)]
    exact hgt.le.trans (hbelow hy hx hy0 hgt)

/-- Different numbers are apart by a part of either of them. -/
theorem apart (hx : x.isFinite = true) (hy : y.isFinite = true) (hne : value x ≠ value y) :
    |value y| ≤ 2 ^ 24 * |value x - value y| := by
  rcases le_or_gt (value x * value y) 0 with hopposite | hsame
  · have hall : |value y| ≤ |value x - value y| := by
      rw [← sq_le_sq]
      linarith [sq_nonneg (value x), show (value x - value y) ^ 2 =
        value x ^ 2 - 2 * (value x * value y) + value y ^ 2 by ring]
    linarith [abs_nonneg (value x - value y)]
  rcases pos_and_pos_or_neg_and_neg_of_mul_pos hsame with ⟨hx0, hy0⟩ | ⟨hx0, hy0⟩
  · rw [abs_of_pos hy0]
    exact apart_of_pos hx hy hx0 hy0 hne
  · have hapart := apart_of_pos (isFinite_neg.trans hx) (isFinite_neg.trans hy)
      (by rwa [value_neg, neg_pos]) (by rwa [value_neg, neg_pos])
      (by rwa [value_neg, value_neg, neg_inj.ne])
    rw [value_neg, value_neg, neg_sub_neg, abs_sub_comm] at hapart
    rwa [abs_of_neg hy0]

/-! ### Squares and roots -/

theorem isFinite_of_mul_self (hx : x.isNaN = false) (hsquare : (x * x).isFinite = true) :
    x.isFinite = true := by
  rcases finite_or hx with hx | ⟨sign, hx⟩
  · exact hx
  · rw [hx.mul_self.isFinite] at hsquare
    cases hsquare

theorem isFinite_of_sqrt (hz : AtLeast z 0) (hroot : z.sqrt.isFinite = true) :
    z.isFinite = true := by
  rcases hz with hz | ⟨hz, -⟩
  · rw [hz.sqrt.isFinite] at hroot
    cases hroot
  · exact hz

/-- A square that is not tiny. -/
theorem le_mul_self (hx : x.isFinite = true) (hlarge : 1 / 2 ^ 63 ≤ |value x|)
    (hsquare : (x * x).isFinite = true) :
    (2 ^ 24 - 1) * |value x| ^ 2 ≤ 2 ^ 24 * value (x * x) := by
  have herror := (RoundsTo.mul hx hx).error hsquare
  have hnormal : (1 : ℚ) / 2 ^ 126 ≤ |value x| ^ 2 :=
    calc (1 : ℚ) / 2 ^ 126 = (1 / 2 ^ 63) ^ 2 := by norm_num
      _ ≤ |value x| ^ 2 := pow_le_pow_left₀ (by positivity) hlarge 2
  rw [← pow_two, abs_pow, max_eq_left hnormal, ← sq_abs (value x)] at herror
  linarith [neg_abs_le (value (x * x) - |value x| ^ 2)]

/-- A number whose square does not overflow. -/
theorem abs_value_lt_of_mul_self (hx : x.isFinite = true) (hsquare : (x * x).isFinite = true) :
    |value x| < 2 ^ 65 := by
  by_contra hlarge
  push Not at hlarge
  have hlimit := (abs_lt.mp (abs_value_lt (x * x))).2
  have htiny : (1 : ℚ) / 2 ^ 63 ≤ 2 ^ 65 := by norm_num
  have hle := le_mul_self hx (htiny.trans hlarge) hsquare
  have hpow : ((2 : ℚ) ^ 65) ^ 2 ≤ |value x| ^ 2 := pow_le_pow_left₀ (by positivity) hlarge 2
  rw [sq_abs] at hle hpow
  norm_num at hlimit hpow
  linarith

/-- Not tiny, so with a mantissa of 24 bits. -/
theorem exists_full_mantissa (hx : x.isFinite = true) (hlarge : 1 / 2 ^ 126 ≤ |value x|) :
    ∃ (c : Nat) (t : ℤ), |value x| = c * 2 ^ t ∧ 2 ^ 23 ≤ c ∧ c < 2 ^ 24 ∧ -149 ≤ t := by
  obtain ⟨c, d, hin, hunits⟩ := exists_units hx
  have hvalue : |value x| = (c <<< d : Nat) * 2 ^ (-149 : ℤ) := by
    rw [value_eq_units hx, abs_signed (by positivity), hunits]
  refine ⟨c, d - 149, ?_, ?_, hin.below, by omega⟩
  · rw [hvalue, ← shiftLeft_value c d]
    congr 2
    ring
  · rcases hin.full with hfull | rfl
    · exact hfull
    · rw [hvalue, Nat.shiftLeft_zero] at hlarge
      have hleast : (1 : ℚ) / 2 ^ 126 = 2 ^ 23 * 2 ^ (-149 : ℤ) := by norm_num
      rw [hleast] at hlarge
      exact_mod_cast le_of_mul_le_mul_right hlarge (by positivity)

/-- The root of what is no less than the rounded square of a number. The number that comes before
    it has a square that is no more than that. -/
theorem atLeast_sqrt_of_mul_self (hx : x.isFinite = true) (hlarge : 1 / 2 ^ 63 ≤ |value x|)
    (hle : x * x ≤ z) (hz : z.isFinite = true) :
    AtLeast z.sqrt ((1 - 1 / 2 ^ 23) * |value x|) := by
  have hsquare : (x * x).isFinite = true := ((atMost_value hz).of_le hle).isFinite
    (mul_self_magnitude (isNaN_of_isFinite hx)).nonneg
  have hrounded := le_mul_self hx hlarge hsquare
  have hroot := (value_le_iff hsquare hz).mpr hle
  have hnormal : (1 : ℚ) / 2 ^ 126 ≤ 1 / 2 ^ 63 := by norm_num
  obtain ⟨c, t, hvalue, hfull, hbelow, hleast⟩ := exists_full_mantissa hx (hnormal.trans hlarge)
  have hunit : (0 : ℚ) < 2 ^ t := by positivity
  have hfull' : (2 : ℚ) ^ 23 ≤ c := by exact_mod_cast hfull
  have hbelow' : (c : ℚ) + 1 ≤ 2 ^ 24 := by exact_mod_cast hbelow
  have hnonneg : 0 ≤ ((c : ℚ) - 1) * 2 ^ t := mul_nonneg (by linarith) hunit.le
  have hbefore : Representable ((c - 1) * 2 ^ t) := by
    refine ⟨c - 1, t, by push_cast; ring, ?_, hleast, ?_⟩
    · rw [abs_le]
      omega
    · rw [abs_of_nonneg hnonneg]
      refine LE.le.trans_lt ?_ (abs_value_lt x)
      rw [hvalue]
      gcongr
      linarith
  have hsquares : ((c - 1) * 2 ^ t) ^ 2 ≤ value z := by
    have hmantissa : 2 ^ 24 * ((c : ℚ) - 1) ^ 2 ≤ (2 ^ 24 - 1) * c ^ 2 := by nlinarith
    rw [hvalue] at hrounded
    have := mul_le_mul_of_nonneg_right hmantissa (sq_nonneg ((2 : ℚ) ^ t))
    linarith [mul_pow ((c : ℚ) - 1) (2 ^ t) 2, mul_pow (c : ℚ) (2 ^ t) 2]
  have hpos : 0 < value z := by
    refine LT.lt.trans_le ?_ hsquares
    have : (1 : ℚ) < c := by linarith
    have : (0 : ℚ) < c - 1 := by linarith
    positivity
  obtain ⟨v, hround, hroots⟩ := RoundsTo.sqrt hz hpos
  refine (hround.atLeast hbefore (hroots _ hbefore hnonneg hsquares)).mono ?_
  rw [hvalue, ← mul_assoc]
  gcongr
  linarith

end RetainedScene.Binary32
