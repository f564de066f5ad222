import RetainedScene.Proofs.Number.Remainder

/-!
# Shares of a number

However the quotient and the product are rounded, `i` of `n` equal parts of a number are less than
the number, as long as a mantissa can count the parts. The number may not be tiny: two thirds of the
least positive number are rounded to all of it.
-/

set_option autoImplicit false

namespace RetainedScene.Binary32

variable {x y z : Float32} {v q : ℚ}

/-- The largest number below one. -/
def belowOne : ℚ :=
  1 - 1 / 2 ^ 24

theorem representable_one : Representable 1 := by
  exact_mod_cast representable_nat (n := 1) (by norm_num)

theorem representable_belowOne : Representable belowOne := by
  refine ⟨2 ^ 24 - 1, -24, ?_, by norm_num, by norm_num, ?_⟩ <;> norm_num [belowOne]

/-- Numbers that differ are apart by a unit in the last place of the larger one. -/
theorem InUnits.apart {a s c t : Nat} (ha : InUnits a s) (hc : InUnits c t)
    (h : a <<< s < c <<< t) : 2 ^ 24 * a <<< s ≤ (2 ^ 24 - 1) * c <<< t := by
  rw [Nat.shiftLeft_eq, Nat.shiftLeft_eq] at h ⊢
  rcases Nat.lt_or_ge s t with hst | hts
  · have hfull : 2 ^ 23 ≤ c := hc.full.resolve_right (by omega)
    have hbelow : a ≤ 2 ^ 24 - 1 := Nat.le_sub_one_of_lt ha.below
    calc 2 ^ 24 * (a * 2 ^ s) ≤ 2 ^ 24 * ((2 ^ 24 - 1) * 2 ^ s) := by gcongr
      _ = (2 ^ 24 - 1) * (2 ^ 23 * 2 ^ (s + 1)) := by rw [pow_succ 2 s]; ring
      _ ≤ (2 ^ 24 - 1) * (c * 2 ^ t) := by gcongr <;> omega
  · obtain ⟨k, rfl⟩ := Nat.exists_eq_add_of_le hts
    have hsplit : a * 2 ^ (t + k) = a * 2 ^ k * 2 ^ t := by rw [pow_add]; ring
    rw [hsplit] at h ⊢
    have hlt : a * 2 ^ k < c := lt_of_mul_lt_mul_right h (Nat.zero_le _)
    have hbelow := hc.below
    have hle : 2 ^ 24 * (a * 2 ^ k) ≤ (2 ^ 24 - 1) * c := by omega
    calc 2 ^ 24 * (a * 2 ^ k * 2 ^ t) = 2 ^ 24 * (a * 2 ^ k) * 2 ^ t := by ring
      _ ≤ (2 ^ 24 - 1) * c * 2 ^ t := Nat.mul_le_mul_right _ hle
      _ = (2 ^ 24 - 1) * (c * 2 ^ t) := by ring

theorem le_belowOne_mul (hx : x.isFinite = true) (hy : y.isFinite = true) (hnonneg : 0 ≤ x)
    (hlt : x < y) : value x ≤ belowOne * value y := by
  have hpos : 0 < y := lt_of_not_le (isNaN_of_isFinite hy) rfl
    fun hle => not_lt_of_le (le_trans hle hnonneg) hlt
  obtain hzero | hx0 := (atLeast_zero_iff.mpr hnonneg |>.le_value hx).eq_or_lt
  · rw [← hzero]
    have := (value_pos_iff hy).mpr hpos
    exact mul_nonneg (by norm_num [belowOne]) this.le
  rw [value_pos_iff hx] at hx0
  obtain ⟨a, s, ha, hunits⟩ := exists_units hx
  obtain ⟨c, t, hc, hunits'⟩ := exists_units hy
  rw [← value_lt_iff hx hy, value_eq_units_of_pos hx hx0, value_eq_units_of_pos hy hpos, hunits,
    hunits'] at hlt
  have hlt' : a <<< s < c <<< t := by exact_mod_cast lt_of_mul_lt_mul_right hlt (by positivity)
  have hapart : ((2 ^ 24 * a <<< s : Nat) : ℚ) ≤ ((2 ^ 24 - 1) * c <<< t : Nat) := by
    exact_mod_cast ha.apart hc hlt'
  rw [value_eq_units_of_pos hx hx0, value_eq_units_of_pos hy hpos, hunits, hunits', belowOne,
    ← mul_assoc]
  gcongr
  push_cast at hapart
  linarith

/-- A share of what is larger than it stays short of one. -/
theorem share_within_belowOne (hnonneg : 0 ≤ x) (hlt : x < y) : Within belowOne (x / y) := by
  have hleast := atLeast_zero_iff.mpr hnonneg
  have hpos : 0 < y := lt_of_le_of_lt hnonneg hlt
  have hx : x.isFinite = true := by
    rcases hleast with hx | ⟨hx, -⟩
    · exact absurd hlt (not_lt_of_le (hx.ge (lt_iff_rank.mp hlt).2.1))
    · exact hx
  rcases finite_or (lt_iff_rank.mp hlt).2.1 with hy | ⟨sign, hy⟩
  · have hpos' := (value_pos_iff hy).mpr hpos
    have hround := RoundsTo.div hx hy hpos'.ne'
    refine ⟨hleast.div hy hpos', hround.atMost representable_belowOne ?_⟩
    rw [div_le_iff₀ hpos']
    exact le_belowOne_mul hx hy hnonneg hlt
  · have hround := RoundsTo.div_infinite hx hy
    exact ⟨hround.atLeast representable_zero le_rfl,
      hround.atMost representable_belowOne (by norm_num [belowOne])⟩

theorem within_belowOne_iff : Within belowOne x ↔ 0 ≤ x ∧ x < 1 := by
  have hone : value 1 = 1 := value_one
  constructor
  · intro h
    refine ⟨atLeast_zero_iff.mp h.nonneg, (value_lt_iff h.isFinite rfl).mp ?_⟩
    rw [hone]
    exact h.value_le.trans_lt (by norm_num [belowOne])
  · rintro ⟨hnonneg, hlt⟩
    have hx : x.isFinite = true :=
      ((atMost_value rfl).of_le (le_of_lt hlt)).isFinite (atLeast_zero_iff.mpr hnonneg)
    have hvalue := le_belowOne_mul hx rfl hnonneg hlt
    rw [hone, mul_one] at hvalue
    exact .of_value hx hnonneg hvalue

/-- A quotient of infinite numbers is not a number. -/
theorem isNaN_div (hx : IsInfinite .positive x) (hy : IsInfinite .positive y) :
    (x / y).isNaN = true := by
  change (Float32.ofModel (.pack (x.toModel.unpack.div .binary32 y.toModel.unpack))).isNaN = true
  rw [show x.toModel.unpack = .infinity .positive from hx,
    show y.toModel.unpack = .infinity .positive from hy]
  rfl

/-- A share that is all of a number is one, or none where that is infinite. -/
theorem not_div_lt_one (hle : x ≤ y) (hge : y ≤ x) (hpos : 0 < y) : ¬ x / y < 1 := by
  have hleast := atLeast_zero_iff.mpr (le_of_lt hpos)
  intro hlt
  rcases hleast with hy | ⟨hy, -⟩
  · have hnan := isNaN_div (hy.of_ge hge) hy
    rw [(lt_iff_rank.mp hlt).1] at hnan
    cases hnan
  · have hx : x.isFinite = true :=
      ((atMost_value hy).of_le hle).isFinite ((atLeast_value hy).of_le hge)
    have hpos' := (value_pos_iff hy).mpr hpos
    have hequal : value x = value y :=
      le_antisymm ((value_le_iff hx hy).mpr hle) ((value_le_iff hy hx).mpr hge)
    have hround := RoundsTo.div hx hy hpos'.ne'
    rw [hequal, div_self hpos'.ne'] at hround
    have hone : AtMost 1 1 := .inr ⟨rfl, value_one.le⟩
    exact not_lt_of_le (hone.le (hround.atLeast representable_one le_rfl)) hlt

/-- Shares of one number stay short of one if the largest part is not all of it. -/
theorem share_lt_one_iff (hnonneg : 0 ≤ x) (hle : x ≤ y) (hpos : 0 < y) : x / y < 1 ↔ x < y := by
  refine ⟨fun hlt => ?_, fun hlt => (within_belowOne_iff.mp (share_within_belowOne hnonneg hlt)).2⟩
  obtain ⟨hx, hy, -⟩ := le_iff_rank.mp hle
  exact lt_of_not_le hy hx fun hge => not_div_lt_one hle hge hpos hlt

/-- A share of what is no less is at most one. -/
theorem share_within_one (hnonneg : 0 ≤ x) (hle : x ≤ y) (hy : y.isFinite = true) (hpos : 0 < y) :
    Within 1 (x / y) := by
  have hx : x.isFinite = true :=
    ((atMost_value hy).of_le hle).isFinite (atLeast_zero_iff.mpr hnonneg)
  exact (Within.of_value hx hnonneg ((value_le_iff hx hy).mpr hle)).div (atLeast_value hy)
    ((value_pos_iff hy).mpr hpos) representable_one one_pos.le (one_mul _).ge

/-- Shares of one number are in the order of the numbers that are shared. -/
theorem shares_ordered {xs : List Float32} (hordered : xs.Pairwise (· ≤ ·))
    (hxs : ∀ x ∈ xs, 0 ≤ x ∧ x ≤ y) (hy : y.isFinite = true) (hpos : 0 < y) :
    (xs.map (· / y)).Pairwise (· ≤ ·) ∧ ∀ share ∈ xs.map (· / y), Within 1 share := by
  have hfinite {x : Float32} (hx : x ∈ xs) : x.isFinite = true :=
    ((atMost_value hy).of_le (hxs x hx).2).isFinite (atLeast_zero_iff.mpr (hxs x hx).1)
  constructor
  · refine List.pairwise_map.mpr (hordered.imp_of_mem fun hx hx' hle => ?_)
    exact div_mono (hfinite hx) (hfinite hx') hy ((value_pos_iff hy).mpr hpos) hle
  · intro share hshare
    obtain ⟨x, hx, rfl⟩ := List.mem_map.mp hshare
    exact share_within_one (hxs x hx).1 (hxs x hx).2 hy hpos

theorem share_le_belowOne {i n : Nat} (hi : i < n) (hn : n ≤ 2 ^ 24) :
    (i : ℚ) / n ≤ belowOne := by
  have hpos : (0 : ℚ) < n := by exact_mod_cast (Nat.zero_le i).trans_lt hi
  have hi' : (i : ℚ) + 1 ≤ n := by exact_mod_cast hi
  have hn' : (n : ℚ) ≤ 2 ^ 24 := by exact_mod_cast hn
  rw [div_le_iff₀ hpos, belowOne]
  linarith

theorem share_within {i n : Nat} (hi : i < n) (hn : n ≤ 2 ^ 24) :
    Within belowOne (Float32.ofNat i / Float32.ofNat n) := by
  obtain ⟨hfinite, hvalue⟩ := (RoundsTo.ofNat i).exact (representable_nat (hi.le.trans hn))
  obtain ⟨hfinite', hvalue'⟩ := (RoundsTo.ofNat n).exact (representable_nat hn)
  have hzero : value (Float32.ofNat n) ≠ 0 := by
    rw [hvalue']
    exact_mod_cast Nat.ne_zero_of_lt hi
  have hround := RoundsTo.div hfinite hfinite' hzero
  rw [hvalue, hvalue'] at hround
  exact ⟨hround.atLeast representable_zero (by positivity),
    hround.atMost representable_belowOne (share_le_belowOne hi hn)⟩

/-- To reach `q` from there, rounding would have to go up by half a unit in the last place. -/
theorem Nearest.lt_of_belowOne {c : Nat} {t : ℤ} (h : Nearest v c t) (hv : v ≤ belowOne * q)
    (hq : 2 ^ (-126 : ℤ) < q) : (c : ℚ) * 2 ^ t < q := by
  by_contra hge
  push Not at hge
  have hunit : (0 : ℚ) < 2 ^ t := by positivity
  have hnear : (c - 1 / 2) * 2 ^ t ≤ v := by
    rw [← le_div_iff₀ hunit]
    linarith [(abs_le.mp h.mantissa.near).1]
  rw [belowOne] at hv
  have hfew : q ≤ 2 ^ 23 * 2 ^ t := by linarith
  rcases h.full with rfl | hfull
  · have hleast : (2 : ℚ) ^ 23 * 2 ^ (-149 : ℤ) = 2 ^ (-126 : ℤ) := by norm_num
    linarith
  · have hpos : (0 : ℚ) < 2 ^ (-126 : ℤ) := by positivity
    linarith

/-- A result that is a share of a number, rounded once, is less than it. -/
theorem RoundsTo.between_of_belowOne (h : RoundsTo v x) (hnonneg : 0 ≤ v)
    (hv : v ≤ belowOne * value y) (hy : y.isFinite = true) (hlarge : 2 ^ (-126 : ℤ) < value y) :
    0 ≤ x ∧ x < y := by
  have hpos : 0 < value y := (show (0 : ℚ) < 2 ^ (-126 : ℤ) by positivity).trans hlarge
  have hall : belowOne * value y ≤ value y := by
    rw [belowOne]
    linarith
  have hleast := h.atLeast representable_zero hnonneg
  have hfinite := (h.atMost (value_representable y) (hv.trans hall)).isFinite hleast
  refine ⟨atLeast_zero_iff.mp hleast, (value_lt_iff hfinite hy).mp ?_⟩
  obtain ⟨sign, m, c, t, hexact, hnearest, ⟨-, hvalue⟩ | ⟨hinfinite, -⟩⟩ := h
  · rw [hvalue]
    cases sign with
    | positive =>
      rw [hexact] at hv
      exact hnearest.lt_of_belowOne hv hlarge
    | negative =>
      have hmagnitude : (0 : ℚ) ≤ c * 2 ^ t := by positivity
      exact (neg_nonpos.mpr hmagnitude).trans_lt hpos
  · rw [hinfinite.isFinite] at hfinite
    cases hfinite

/-- The product of a share and what is shared, of which not all need be in use. -/
theorem mul_share_between {whole : Float32} (hx : Within belowOne x) (hy : Within (value whole) y)
    (hfinite : whole.isFinite = true) (hlarge : 2 ^ (-126 : ℤ) < value whole) :
    0 ≤ x * y ∧ x * y < whole := by
  have hbelow : value x * value y ≤ belowOne * value whole :=
    mul_le_mul hx.value_le hy.value_le hy.value_nonneg (by norm_num [belowOne])
  exact (RoundsTo.mul hx.isFinite hy.isFinite).between_of_belowOne
    (mul_nonneg hx.value_nonneg hy.value_nonneg) hbelow hfinite hlarge

/-- A zero of either sign moves nothing from one side of a number to the other. -/
theorem add_zero_between (hz : (z == 0) = true) (hy : y.isFinite = true) (hx : 0 ≤ x)
    (hlt : x < y) : 0 ≤ x + z ∧ x + z < y := by
  obtain ⟨hzero, hvalue⟩ := finite_of_beq_zero hz
  have hx0 := atLeast_zero_iff.mpr hx
  have hfinite : x.isFinite = true := ((atMost_value hy).of_le (le_of_lt hlt)).isFinite hx0
  have hleast : AtLeast (x + z) 0 :=
    hx0.add (atLeast_value hzero) representable_zero (by rw [hvalue, zero_add])
  have hmost : AtMost (x + z) (value x) :=
    (atMost_value hfinite).add (atMost_value hzero) (value_representable x)
      (by rw [hvalue, add_zero])
  have hsum := hmost.isFinite hleast
  exact ⟨atLeast_zero_iff.mp hleast, (value_lt_iff hsum hy).mp
    ((hmost.value_le hsum).trans_lt ((value_lt_iff hfinite hy).mpr hlt))⟩

end RetainedScene.Binary32
