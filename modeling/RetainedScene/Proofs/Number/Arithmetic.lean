import RetainedScene.Proofs.Number.Rounding

/-!
# Arithmetic on binary32 numbers

Each operation on finite numbers rounds the exact result. A sum of infinite numbers keeps their
bounds, as long as they do not have opposite signs.
-/

set_option autoImplicit false

namespace RetainedScene.Binary32

open Float.Model (Format UnpackedFloat)
open Float.Model.UnpackedFloat

theorem signed_mul (s t : Sign) (p q : ℚ) : signed s p * signed t q = signed (s * t) (p * q) := by
  cases s <;> cases t
  · exact neg_mul_neg p q
  · exact neg_mul p q
  · exact mul_neg p q
  · rfl

theorem signed_div (s t : Sign) (p q : ℚ) : signed s p / signed t q = signed (s / t) (p / q) := by
  cases s <;> cases t
  · exact neg_div_neg_eq p q
  · exact neg_div q p
  · exact div_neg p
  · rfl

theorem signed_apply (sign : Sign) (m : Nat) (q : ℚ) :
    signed sign (m * q) = (sign.apply m : ℤ) * q := by
  cases sign
  · simp [signed, Sign.apply]
  · rfl

theorem shiftLeft_value (m s : Nat) (e : ℤ) :
    ((m <<< s : Nat) : ℚ) * 2 ^ (e - s : ℤ) = m * 2 ^ e := by
  rw [Nat.shiftLeft_eq, zpow_sub₀ two_ne_zero, zpow_natCast]
  push_cast
  field_simp

theorem log2_shiftLeft {m : Nat} (hm : 0 < m) (s : Nat) : (m <<< s).log2 = m.log2 + s := by
  rw [Nat.shiftLeft_eq, Nat.log2_eq_iff (by positivity), pow_add, add_right_comm, pow_add]
  refine ⟨Nat.mul_le_mul_right _ (Nat.log2_self_le hm.ne'), ?_⟩
  exact Nat.mul_lt_mul_of_pos_right Nat.lt_log2_self (by positivity)

theorem renders_round (sign : Sign) {m : Nat} (hm : 0 < m) (e : ℤ) :
    ∃ c t, Nearest (m * 2 ^ e) c t ∧ Renders (round .binary32 sign m e) sign (c * 2 ^ t) := by
  obtain ⟨s, hs⟩ : ∃ s : Nat, s = (e - max ((m.log2 : ℤ) + 1 + e - 24) (-149)).toNat := ⟨_, rfl⟩
  have hround : round .binary32 sign m e =
      roundWithAccuracy .binary32 sign (m <<< s) (e - s) .exact := by
    subst hs
    rfl
  rw [hround, ← shiftLeft_value m s e]
  refine renders_roundWithAccuracy sign (Describes.exact _) ?_
  rw [log2_shiftLeft hm]
  omega

/-- A canonical number is nearest to itself. -/
theorem nearest_self {m : Nat} {e : ℤ} (h : Canonical m e) : Nearest (m * 2 ^ e) m e := by
  have hpos : (0 : ℚ) < 2 ^ e := by positivity
  refine ⟨by positivity, ?_, ?_, h.least, ?_⟩
  · rw [mul_div_cancel_right₀ _ hpos.ne']
    exact ⟨by norm_num, by norm_num⟩
  · have hbelow : (m : ℚ) < 2 ^ 24 := by exact_mod_cast h.below
    exact mul_lt_mul_of_pos_right hbelow hpos
  · refine h.full.symm.imp id fun hfull => ?_
    have hfull' : (2 : ℚ) ^ 23 ≤ m := by exact_mod_cast hfull
    gcongr

theorem RoundsTo.of_renders {u : UnpackedFloat} {sign : Sign} {q : ℚ}
    (h : ∃ c t, Nearest q c t ∧ Renders u sign (c * 2 ^ t)) :
    RoundsTo (signed sign q) (.ofModel (.pack u)) := by
  obtain ⟨c, t, hnearest, hrenders⟩ := h
  exact ⟨sign, q, c, t, rfl, hnearest, hrenders.stores⟩

theorem roundsTo_zero (sign : Sign) : RoundsTo 0 (.ofModel (.pack (.zero sign))) := by
  have hzero : (0 : ℚ) = signed sign ((0 : Nat) * 2 ^ (-149 : ℤ)) := by cases sign <;> simp [signed]
  rw [hzero]
  exact .of_renders ⟨0, -149, nearest_self ⟨by norm_num, le_rfl, .inr rfl⟩, trivial,
    .inl ⟨rfl, by simp⟩⟩

theorem roundsTo_finite {sign : Sign} {m : Nat} {e : ℤ} {hm : 0 < m} (h : Canonical m e) :
    RoundsTo (signed sign (m * 2 ^ e)) (.ofModel (.pack (.finite sign m e hm))) :=
  .of_renders ⟨m, e, nearest_self h, h, .inr ⟨m, e, hm, rfl, rfl⟩⟩

theorem roundsTo_normalize (n e : ℤ) (sign : Sign) :
    RoundsTo (n * 2 ^ e) (.ofModel (.pack (normalize .binary32 n e sign))) := by
  unfold UnpackedFloat.normalize
  rcases lt_trichotomy n 0 with hlt | rfl | hgt
  · rw [compare_lt_iff_lt.mpr hlt]
    have hsigned : (n : ℚ) * 2 ^ e = signed .negative ((-n).toNat * 2 ^ e) := by
      rw [signed_apply, Sign.apply, Int.toNat_of_nonneg (by omega), neg_neg]
    rw [hsigned]
    exact .of_renders (renders_round .negative (by omega) e)
  · rw [compare_eq_iff_eq.mpr rfl, Int.cast_zero, zero_mul]
    exact roundsTo_zero sign
  · rw [compare_gt_iff_gt.mpr hgt]
    have hsigned : (n : ℚ) * 2 ^ e = signed .positive (n.toNat * 2 ^ e) := by
      rw [signed_apply, Sign.apply, Int.toNat_of_nonneg (by omega)]
    rw [hsigned]
    exact .of_renders (renders_round .positive (by omega) e)

/-- Numbers are brought to a common exponent before they are added. -/
theorem signed_decreaseExponent (sign : Sign) (m : Nat) {e target : ℤ} (h : target ≤ e) :
    ((sign.apply (decreaseExponent m e target).1 : ℤ) : ℚ) * 2 ^ target =
      signed sign (m * 2 ^ e) := by
  have hshift : e - (e - target).toNat = target := by omega
  rw [← signed_apply, ← shiftLeft_value m (e - target).toNat e, hshift]
  rfl

/-- The quotient of the mantissas is taken with enough bits to be rounded. -/
theorem divCore_eq {m n : Nat} (hm : 0 < m) (hn : 0 < n) (e f : ℤ) :
    ∃ shift : Nat, divCore .binary32 m e n f =
        (m <<< shift / n, e - f - shift, accuracyOfFraction (m <<< shift % n) n) ∧
      (23 ≤ (m <<< shift / n).log2 ∨ e - f - shift ≤ -149) := by
  obtain ⟨target, htarget⟩ : ∃ target, target =
    min (e - f) (max ((m.log2 : ℤ) + 1 + e - (n.log2 + 1 + f) - 24) (-149)) := ⟨_, rfl⟩
  have hshift : e - f - (e - f - target).toNat = target := by omega
  refine ⟨(e - f - target).toNat, ?_, ?_⟩
  · rw [hshift, htarget]
    rfl
  rw [hshift]
  by_cases hleast : target ≤ -149
  · exact .inr hleast
  left
  have hbits : n.log2 + 24 ≤ m.log2 + (e - f - target).toNat := by omega
  generalize (e - f - target).toNat = shift at hbits
  have hlarge : 2 ^ 23 * n ≤ m <<< shift :=
    calc 2 ^ 23 * n ≤ 2 ^ 23 * 2 ^ (n.log2 + 1) := Nat.mul_le_mul_left _ Nat.lt_log2_self.le
      _ = 2 ^ (n.log2 + 24) := by rw [← pow_add]; congr 1; omega
      _ ≤ 2 ^ (m <<< shift).log2 := by
        rw [log2_shiftLeft hm]
        exact Nat.pow_le_pow_right two_pos hbits
      _ ≤ m <<< shift := Nat.log2_self_le (Nat.shiftLeft_pos_iff.mpr hm).ne'
  have hquotient : 2 ^ 23 ≤ m <<< shift / n := (Nat.le_div_iff_mul_le hn).mpr hlarge
  exact (Nat.le_log2 (by omega)).mpr hquotient

section

variable {u v : UnpackedFloat} (hu : IsCanonical u) (hv : IsCanonical v)

include hu hv

theorem roundsTo_add (hu' : u.isFinite = true) (hv' : v.isFinite = true) :
    RoundsTo (valueOf u + valueOf v) (.ofModel (.pack (u.add .binary32 v))) := by
  obtain ⟨s, rfl⟩ | ⟨s, m, e, hm, rfl⟩ := zero_or_finite hu' <;>
    obtain ⟨t, rfl⟩ | ⟨t, n, f, hn, rfl⟩ := zero_or_finite hv'
  · simp only [UnpackedFloat.add, valueOf_zero, add_zero]
    split_ifs <;> exact roundsTo_zero _
  · rw [valueOf_zero, zero_add]
    exact roundsTo_finite hv
  · rw [valueOf_zero, add_zero]
    exact roundsTo_finite hu
  · have hsum : valueOf (.finite s m e hm) + valueOf (.finite t n f hn) =
        ((s.apply (decreaseExponent m e (min e f)).1 +
          t.apply (decreaseExponent n f (min e f)).1 : ℤ) : ℚ) * 2 ^ min e f := by
      rw [Int.cast_add, add_mul, signed_decreaseExponent s m (min_le_left e f),
        signed_decreaseExponent t n (min_le_right e f)]
      rfl
    rw [hsum]
    exact roundsTo_normalize _ _ _

theorem roundsTo_mul (hu' : u.isFinite = true) (hv' : v.isFinite = true) :
    RoundsTo (valueOf u * valueOf v) (.ofModel (.pack (u.mul .binary32 v))) := by
  obtain ⟨s, rfl⟩ | ⟨s, m, e, hm, rfl⟩ := zero_or_finite hu' <;>
    obtain ⟨t, rfl⟩ | ⟨t, n, f, hn, rfl⟩ := zero_or_finite hv'
  · rw [valueOf_zero, zero_mul]
    exact roundsTo_zero _
  · rw [valueOf_zero, zero_mul]
    exact roundsTo_zero _
  · rw [valueOf_zero, mul_zero]
    exact roundsTo_zero _
  · have hproduct : valueOf (.finite s m e hm) * valueOf (.finite t n f hn) =
        signed (s * t) ((m * n : Nat) * 2 ^ (e + f)) := by
      rw [valueOf, valueOf, signed_mul, zpow_add₀ two_ne_zero]
      push_cast
      ring_nf
    rw [hproduct]
    refine .of_renders (renders_roundWithAccuracy (s * t) (Describes.exact _) ?_)
    have hpos : m * n ≠ 0 := (Nat.mul_pos hm hn).ne'
    rcases hu.full with hm' | rfl
    · exact .inl ((Nat.le_log2 hpos).mpr (hm'.trans (Nat.le_mul_of_pos_right m hn)))
    · rcases hv.full with hn' | rfl
      · exact .inl ((Nat.le_log2 hpos).mpr (hn'.trans (Nat.le_mul_of_pos_left n hm)))
      · exact .inr (by norm_num)

theorem roundsTo_div (hu' : u.isFinite = true) (hv' : v.isFinite = true) (hzero : valueOf v ≠ 0) :
    RoundsTo (valueOf u / valueOf v) (.ofModel (.pack (u.div .binary32 v))) := by
  obtain ⟨t, rfl⟩ | ⟨t, n, f, hn, rfl⟩ := zero_or_finite hv'
  · exact absurd (valueOf_zero t) hzero
  obtain ⟨s, rfl⟩ | ⟨s, m, e, hm, rfl⟩ := zero_or_finite hu'
  · rw [valueOf_zero, zero_div]
    exact roundsTo_zero _
  obtain ⟨shift, hcore, hbits⟩ := divCore_eq hm hn e f
  have hquotient : valueOf (.finite s m e hm) / valueOf (.finite t n f hn) =
      signed (s / t) (((m <<< shift : Nat) : ℚ) / n * 2 ^ (e - f - shift)) := by
    have hpow : (2 : ℚ) ^ (e - f - shift) = 2 ^ (e - shift : ℤ) / 2 ^ f := by
      rw [← zpow_sub₀ two_ne_zero]
      congr 1
      omega
    rw [valueOf, valueOf, signed_div, ← shiftLeft_value m shift, hpow, mul_div_mul_comm]
  have hdiv : UnpackedFloat.div .binary32 (.finite s m e hm) (.finite t n f hn) =
      roundWithAccuracy .binary32 (s / t) (m <<< shift / n) (e - f - shift)
        (accuracyOfFraction (m <<< shift % n) n) := by
    rw [UnpackedFloat.div, hcore]
  rw [hquotient, hdiv]
  exact .of_renders (renders_roundWithAccuracy (s / t) (Describes.quotient _ hn) hbits)

end

section

variable {x y : Float32}

theorem RoundsTo.add (hx : x.isFinite = true) (hy : y.isFinite = true) :
    RoundsTo (value x + value y) (x + y) :=
  roundsTo_add (unpack_isCanonical _).1 (unpack_isCanonical _).1 hx hy

theorem RoundsTo.mul (hx : x.isFinite = true) (hy : y.isFinite = true) :
    RoundsTo (value x * value y) (x * y) :=
  roundsTo_mul (unpack_isCanonical _).1 (unpack_isCanonical _).1 hx hy

theorem RoundsTo.div (hx : x.isFinite = true) (hy : y.isFinite = true) (hzero : value y ≠ 0) :
    RoundsTo (value x / value y) (x / y) :=
  roundsTo_div (unpack_isCanonical _).1 (unpack_isCanonical _).1 hx hy hzero

theorem sub_eq_add_neg (x y : Float32) : x - y = x + -y := by
  have hsub : ∀ u v : UnpackedFloat, u.sub .binary32 v = u.add .binary32 v.neg := by
    intro u v
    cases u <;> cases v <;> try rfl
    case finite.finite s m e hm t n f hn =>
      have happly : ∀ k : ℤ, (-t).apply k = -t.apply k := by
        intro k
        cases t
        · exact (Int.neg_neg k).symm
        · rfl
      simp only [UnpackedFloat.sub, UnpackedFloat.add, UnpackedFloat.neg, happly, Int.sub_eq_add_neg]
  change Float32.ofModel (.pack (x.toModel.unpack.sub .binary32 y.toModel.unpack)) =
    Float32.ofModel (.pack (x.toModel.unpack.add .binary32 (-y).toModel.unpack))
  rw [unpack_neg, hsub]

theorem RoundsTo.sub (hx : x.isFinite = true) (hy : y.isFinite = true) :
    RoundsTo (value x - value y) (x - y) := by
  have hvalue : value x - value y = value x + value (-y) := by rw [value_neg]; ring
  rw [hvalue, sub_eq_add_neg]
  exact .add hx (isFinite_neg.trans hy)

theorem value_one : value (Float32.ofBits 0x3f800000) = 1 := by
  have hunpack : (Float32.ofBits 0x3f800000).toModel.unpack =
      .finite .positive 8388608 (-23) (by decide) := rfl
  rw [value, hunpack]
  norm_num [valueOf, signed]

theorem value_half : value (0.5 : Float32) = 1 / 2 := by
  have hbits : (0.5 : Float32) = Float32.ofBits 0x3f000000 := by decide +kernel
  have hunpack : (Float32.ofBits 0x3f000000).toModel.unpack =
      .finite .positive 8388608 (-24) (by decide) := rfl
  rw [hbits, value, hunpack]
  norm_num [valueOf, signed]

theorem representable_nat {n : Nat} (hn : n ≤ 2 ^ 24) : Representable n := by
  have hn' : (n : ℚ) ≤ 2 ^ 24 := by exact_mod_cast hn
  have := representable_signed hn (show -149 ≤ 0 by decide)
    (by rw [zpow_zero, mul_one]; exact hn'.trans_lt (by norm_num)) .positive
  rwa [zpow_zero, mul_one] at this

/-- Small numbers are converted exactly and then multiplied by one. -/
theorem RoundsTo.ofNat (n : Nat) : RoundsTo n (Float32.ofNat n) := by
  unfold Float32.ofNat OfScientific.ofScientific instOfScientificFloat32 Float32.ofScientific
  dsimp only
  by_cases hsmall : n < 2 ^ 23 ∧ 0 ≤ 10
  · rw [dif_pos hsmall]
    have hround : RoundsTo n n.toUInt64.toFloat32 := by
      have hn : ((n.toUInt64.toNat : ℤ) : ℚ) * 2 ^ (0 : ℤ) = n := by
        have : n.toUInt64.toNat = n := by
          rw [Nat.toUInt64, UInt64.toNat_ofNat']
          omega
        rw [this, zpow_zero, mul_one, Int.cast_natCast]
      exact hn ▸ roundsTo_normalize n.toUInt64.toNat 0 .positive
    obtain ⟨hfinite, hvalue⟩ := hround.exact (representable_nat (show n ≤ 2 ^ 24 by omega))
    have hproduct : value n.toUInt64.toFloat32 * value (Float32.ofBits 0x3f800000) = n := by
      rw [value_one, mul_one, hvalue]
    exact hproduct ▸ RoundsTo.mul hfinite rfl
  · rw [dif_neg hsmall]
    have hn : n ≠ 0 := by omega
    have hscientific : UnpackedFloat.ofScientific .binary32 n 0 =
        roundWithAccuracy .binary32 .positive (n <<< 24 * 1) (-24) .exact := by
      rw [UnpackedFloat.ofScientific, dif_neg hn, if_neg (by norm_num), if_neg (by norm_num),
        if_pos le_rfl]
      rfl
    change RoundsTo n (.ofModel (.pack (UnpackedFloat.ofScientific .binary32 n 0)))
    have hvalue : (n : ℚ) = signed .positive ((n <<< 24 * 1 : Nat) * 2 ^ (-24 : ℤ)) := by
      have hshift := shiftLeft_value n 24 0
      rw [show (0 : ℤ) - (24 : Nat) = -24 by norm_num, zpow_zero, mul_one] at hshift
      rw [mul_one, signed, hshift]
    rw [hscientific, hvalue]
    refine .of_renders (renders_roundWithAccuracy .positive (Describes.exact _) (.inl ?_))
    rw [mul_one, log2_shiftLeft (Nat.pos_of_ne_zero hn)]
    omega

theorem value_ofNat {n : Nat} (hn : n ≤ 2 ^ 24) : value (Float32.ofNat n) = n :=
  ((RoundsTo.ofNat n).exact (representable_nat hn)).2

end

end RetainedScene.Binary32
