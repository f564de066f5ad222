import RetainedScene.Proofs.Number.Error

/-!
# Intervals of pixels

Up to 2¹⁴ an operation is off by at most 2⁻¹⁰. So the interval that a position lies in is found as
for exact numbers, with 2⁻¹⁰ more on both sides for each operation. Whole numbers are taken away, and
taken together, without any error.
-/

set_option autoImplicit false

namespace RetainedScene.Binary32

variable {x y : Float32} {a b c d q v low high : ℚ}

/-! ### Exact results -/

/-- To take a whole number away from a larger number needs no more bits than that has. -/
theorem Representable.sub_nat (h : Representable v) {n : Nat} (hn : n ≤ v) (hv : v ≤ 2 ^ 24) :
    Representable (v - n) := by
  obtain ⟨m, t, rfl, hm, ht, hlimit⟩ := h
  have hlimit' : |(m : ℚ) * 2 ^ t - n| < 2 ^ 128 := by
    have hlarge : (2 : ℚ) ^ 24 < 2 ^ 128 := by norm_num
    have hn0 : (0 : ℚ) ≤ n := n.cast_nonneg
    rw [abs_of_nonneg (by linarith)]
    linarith
  rcases le_or_gt 0 t with hwhole | hparts
  · obtain ⟨k, rfl⟩ := Int.eq_ofNat_of_zero_le hwhole
    rw [zpow_natCast] at hn hv hlimit' ⊢
    refine ⟨m * 2 ^ k - n, 0, by push_cast; ring, ?_, by norm_num, hlimit'⟩
    rw [abs_le]
    have hn' : (n : ℤ) ≤ m * 2 ^ k := by exact_mod_cast hn
    have hv' : m * 2 ^ k ≤ 2 ^ 24 := by exact_mod_cast hv
    omega
  · obtain ⟨k, hk⟩ := Int.eq_ofNat_of_zero_le (neg_nonneg.mpr hparts.le)
    obtain rfl : t = -k := by omega
    have hscale : (2 : ℚ) ^ (-(k : ℤ)) * 2 ^ k = 1 := by
      rw [zpow_neg, zpow_natCast, inv_mul_cancel₀ (by positivity)]
    have hsplit : (m : ℚ) * 2 ^ (-(k : ℤ)) - n = (m - n * 2 ^ k : ℤ) * 2 ^ (-(k : ℤ)) := by
      push_cast
      rw [sub_mul, mul_assoc (n : ℚ), mul_comm ((2 : ℚ) ^ k), hscale, mul_one]
    have hnonneg : (0 : ℤ) ≤ m - n * 2 ^ k := by
      have hle : (n : ℚ) * 2 ^ k ≤ m := by
        calc (n : ℚ) * 2 ^ k ≤ m * 2 ^ (-(k : ℤ)) * 2 ^ k := by gcongr
          _ = m := by rw [mul_assoc, hscale, mul_one]
      have hle' : n * 2 ^ k ≤ m := by exact_mod_cast hle
      linarith
    refine ⟨m - n * 2 ^ k, -k, hsplit, ?_, ht, hlimit'⟩
    have hpos : (0 : ℤ) ≤ n * 2 ^ k := by positivity
    rw [abs_of_nonneg hnonneg]
    exact (sub_le_self _ hpos).trans ((le_abs_self m).trans hm)

theorem value_sub_nat (hx : x.isFinite = true) (hx' : value x ≤ 2 ^ 24) (hy : y.isFinite = true)
    {n : Nat} (hyn : value y = n) (hn : n ≤ value x) :
    (x - y).isFinite = true ∧ value (x - y) = value x - n := by
  have hround := RoundsTo.sub hx hy
  rw [hyn] at hround
  exact hround.exact ((value_representable x).sub_nat hn hx')

theorem value_total_replicate {m n : Nat} (hx : x.isFinite = true) (hm : value x = m)
    (h : (n + 1) * m ≤ 2 ^ 24) : (Scalar.total (List.replicate (n + 1) x)).isFinite = true ∧
      value (Scalar.total (List.replicate (n + 1) x)) = (n + 1) * m := by
  have hfold : ∀ (n k : Nat) (y : Float32), y.isFinite = true → value y = k →
      k + n * m ≤ 2 ^ 24 → ((List.replicate n x).foldl (· + ·) y).isFinite = true ∧
        value ((List.replicate n x).foldl (· + ·) y) = k + n * m := by
    intro n
    induction n with
    | zero =>
      intro k y hy hk _
      exact ⟨hy, by simpa using hk⟩
    | succ n ih =>
      intro k y hy hk hsum
      rw [Nat.succ_mul] at hsum
      have hround := RoundsTo.add hy hx
      rw [hk, hm, ← Nat.cast_add] at hround
      obtain ⟨hfinite, hvalue⟩ := hround.exact (representable_nat (by omega))
      obtain ⟨hfinite', hvalue'⟩ := ih (k + m) (y + x) hfinite hvalue (by omega)
      refine ⟨hfinite', hvalue'.trans ?_⟩
      push_cast
      ring
  obtain ⟨hfinite, hvalue⟩ := hfold n m x hx hm (by rw [Nat.succ_mul] at h; omega)
  refine ⟨hfinite, hvalue.trans ?_⟩
  ring

/-! ### Errors -/

theorem RoundsTo.error_le (h : RoundsTo v x) (hq : Representable q) (hv : |v| ≤ q) (hone : 1 ≤ q) :
    x.isFinite = true ∧ |value x - v| ≤ q / 2 ^ 24 := by
  have hfinite := (h.abs_value_le hq hv).1
  have herror := h.error hfinite
  have hmost : max |v| (1 / 2 ^ 126) ≤ q := max_le hv ((by norm_num : (1 : ℚ) / 2 ^ 126 ≤ 1).trans hone)
  refine ⟨hfinite, ?_⟩
  rw [le_div_iff₀ (by positivity), mul_comm]
  exact herror.trans hmost

/-- A number is taken away again and again. What is left is off by the error of each time. -/
theorem iterate_sub_error (hx : x.isFinite = true) (hy : y.isFinite = true)
    (hq : Representable q) (hone : 1 ≤ q) (n : Nat)
    (h : ∀ k ≤ n, |value x - k * value y| + k * (q / 2 ^ 24) ≤ q) :
    ((· - y)^[n] x).isFinite = true ∧
      |value ((· - y)^[n] x) - (value x - n * value y)| ≤ n * (q / 2 ^ 24) := by
  induction n with
  | zero => exact ⟨hx, by simp⟩
  | succ n ih =>
    obtain ⟨hfinite, herror⟩ := ih fun k hk => h k (by omega)
    rw [Function.iterate_succ_apply']
    generalize (· - y)^[n] x = rest at hfinite herror ⊢
    have hrange := h (n + 1) le_rfl
    push_cast at hrange ⊢
    have hstep : |value rest - value y| ≤ q := by
      have hsplit : value rest - value y =
          (value rest - (value x - n * value y)) + (value x - (n + 1) * value y) := by ring
      have htriangle := abs_add_le (value rest - (value x - n * value y))
        (value x - (n + 1) * value y)
      rw [← hsplit] at htriangle
      have : 0 ≤ q / 2 ^ 24 := by positivity
      linarith
    obtain ⟨hfinite', herror'⟩ := (RoundsTo.sub hfinite hy).error_le hq hstep hone
    refine ⟨hfinite', ?_⟩
    have hsplit : value (rest - y) - (value x - (n + 1) * value y) =
        (value (rest - y) - (value rest - value y)) +
          (value rest - (value x - n * value y)) := by ring
    have htriangle := abs_add_le (value (rest - y) - (value rest - value y))
      (value rest - (value x - n * value y))
    rw [hsplit]
    linarith

/-- The same for numbers that are not negative, neither of which gets large. -/
theorem iterate_sub_le (hx : x.isFinite = true) (hy : y.isFinite = true)
    (hq : Representable q) (hone : 1 ≤ q) {n : Nat} {most : ℚ} (hx' : 0 ≤ value x)
    (hy' : 0 ≤ value y) (hxmost : value x ≤ most) (hymost : n * value y ≤ most)
    (hmost : most + n * (q / 2 ^ 24) ≤ q) : ((· - y)^[n] x).isFinite = true ∧
      value ((· - y)^[n] x) ≤ value x - n * value y + n * (q / 2 ^ 24) := by
  obtain ⟨hfinite, herror⟩ := iterate_sub_error hx hy hq hone n fun k hk => by
    have hk' : (k : ℚ) ≤ n := by exact_mod_cast hk
    have hgiven := mul_nonneg (k.cast_nonneg : (0 : ℚ) ≤ k) hy'
    have hgiven' := mul_le_mul_of_nonneg_right hk' hy'
    have herrors : (k : ℚ) * (q / 2 ^ 24) ≤ n * (q / 2 ^ 24) := by gcongr
    have habs : |value x - k * value y| ≤ most := abs_le.mpr ⟨by linarith, by linarith⟩
    linarith
  exact ⟨hfinite, by linarith [(abs_le.mp herror).2]⟩

theorem AtLeast.pos (h : AtLeast x q) (hq : 0 < q) : 0 < x := by
  refine lt_of_not_le h.isNaN rfl fun hle => ?_
  have hzero : AtMost (0 : Float32) 0 := .inr ⟨rfl, value_zero.le⟩
  have hmost := hzero.of_le hle
  have hfinite := hmost.isFinite h
  linarith [h.le_value hfinite, hmost.value_le hfinite]

theorem sub_nat_pos (hx : x.isFinite = true) (hy : y.isFinite = true) {n : Nat}
    (hyn : value y = n) (hsmall : n ≤ 2 ^ 23) (hn : n < value x) : 0 < x - y := by
  have hsmall' : (n : ℚ) ≤ 2 ^ 23 := by exact_mod_cast hsmall
  rcases le_or_gt (value x) (2 ^ 24) with hle | hlarge
  · obtain ⟨hfinite, hvalue⟩ := value_sub_nat hx hle hy hyn hn.le
    exact (value_pos_iff hfinite).mp (by linarith)
  · have hround := RoundsTo.sub hx hy
    rw [hyn] at hround
    exact (hround.atLeast (representable_two_pow (k := 23) (by norm_num)) (by linarith)).pos
      (by norm_num)

/-! ### Intervals -/

structure Lies (low high : ℚ) (x : Float32) : Prop where
  finite : x.isFinite = true
  low_le : low ≤ value x
  le_high : value x ≤ high

namespace Lies

theorem mono (h : Lies a b x) (hlow : low ≤ a) (hhigh : b ≤ high) : Lies low high x :=
  ⟨h.finite, hlow.trans h.low_le, h.le_high.trans hhigh⟩

theorem of_value (hx : x.isFinite = true) (h : value x = q) : Lies q q x :=
  ⟨hx, h.ge, h.le⟩

theorem value_eq (h : Lies q q x) : value x = q :=
  le_antisymm h.le_high h.low_le

theorem atLeast (h : Lies a b x) : AtLeast x a :=
  .inr ⟨h.finite, h.low_le⟩

theorem atMost (h : Lies a b x) : AtMost x b :=
  .inr ⟨h.finite, h.le_high⟩

theorem of_bounds (hleast : AtLeast x a) (hmost : AtMost x b) : Lies a b x :=
  have hfinite := hmost.isFinite hleast
  ⟨hfinite, hleast.le_value hfinite, hmost.value_le hfinite⟩

/-- Nothing is rounded away from a whole number. -/
theorem of_round_whole {n : Nat} (h : RoundsTo v x) (hv : v = n) (hn : n ≤ 2 ^ 24) (hq : n = q) :
    Lies q q x := by
  rw [hv] at h
  obtain ⟨hfinite, hvalue⟩ := h.exact (representable_nat hn)
  exact of_value hfinite (hvalue.trans hq)

theorem whole {n : Nat} (hx : x = Float32.ofNat n) (hn : n ≤ 2 ^ 24) (hq : n = q) : Lies q q x := by
  rw [hx]
  exact of_round_whole (.ofNat n) rfl hn hq

theorem mul_whole {n : Nat} (hx : Lies a a x) (hy : Lies b b y) (h : a * b = n) (hn : n ≤ 2 ^ 24)
    (hq : n = q) : Lies q q (x * y) := by
  have hround := RoundsTo.mul hx.finite hy.finite
  rw [hx.value_eq, hy.value_eq] at hround
  exact of_round_whole hround h hn hq

theorem of_error (h : RoundsTo v x) (hq : Representable q) (hlow : -q ≤ v) (hhigh : v ≤ q)
    (hone : 1 ≤ q) : Lies (v - q / 2 ^ 24) (v + q / 2 ^ 24) x := by
  obtain ⟨hfinite, herror⟩ := h.error_le hq (abs_le.mpr ⟨hlow, hhigh⟩) hone
  obtain ⟨herror, herror'⟩ := abs_le.mp herror
  exact ⟨hfinite, by linarith, by linarith⟩

theorem of_round (h : RoundsTo v x) (hlow : a ≤ v) (hhigh : v ≤ b) (ha : -2 ^ 14 ≤ a)
    (hb : b ≤ 2 ^ 14) : Lies (a - 1 / 2 ^ 10) (b + 1 / 2 ^ 10) x := by
  have hunit : (2 : ℚ) ^ 14 / 2 ^ 24 = 1 / 2 ^ 10 := by norm_num
  have hlies := of_error h (representable_two_pow (k := 14) (by norm_num)) (ha.trans hlow)
    (hhigh.trans hb) (by norm_num)
  rw [hunit] at hlies
  exact hlies.mono (by linarith) (by linarith)

theorem add (hx : Lies a b x) (hy : Lies c d y) (hlow : -2 ^ 14 ≤ a + c) (hhigh : b + d ≤ 2 ^ 14) :
    Lies (a + c - 1 / 2 ^ 10) (b + d + 1 / 2 ^ 10) (x + y) :=
  of_round (.add hx.finite hy.finite) (add_le_add hx.low_le hy.low_le)
    (add_le_add hx.le_high hy.le_high) hlow hhigh

theorem add_nonneg (hx : Lies 0 b x) (hy : Lies 0 d y) (hhigh : b + d ≤ 2 ^ 14) :
    Lies 0 (b + d + 1 / 2 ^ 10) (x + y) := by
  have hsum := hx.add hy (by norm_num) hhigh
  refine of_bounds ?_ hsum.atMost
  exact (RoundsTo.add hx.finite hy.finite).atLeast representable_zero
    (by linarith [hx.low_le, hy.low_le])

theorem sub (hx : Lies a b x) (hy : Lies c d y) (hlow : -2 ^ 14 ≤ a - d) (hhigh : b - c ≤ 2 ^ 14) :
    Lies (a - d - 1 / 2 ^ 10) (b - c + 1 / 2 ^ 10) (x - y) :=
  of_round (.sub hx.finite hy.finite) (sub_le_sub hx.low_le hy.le_high)
    (sub_le_sub hx.le_high hy.low_le) hlow hhigh

theorem half (hx : Lies a b x) (hlow : -2 ^ 14 ≤ a / 2) (hhigh : b / 2 ≤ 2 ^ 14) :
    Lies (a / 2 - 1 / 2 ^ 10) (b / 2 + 1 / 2 ^ 10) (x * 0.5) := by
  have hround : RoundsTo (value x * value 0.5) (x * 0.5) := .mul hx.finite rfl
  rw [value_half] at hround
  exact of_round hround (by linarith [hx.low_le]) (by linarith [hx.le_high]) hlow hhigh

end Lies

end RetainedScene.Binary32
