import RetainedScene.Proofs.Number.Monotone

/-!
# Square roots of binary32 numbers

A root is taken of a whole number with enough bits, and cut off there. The bits that are kept say
whether the exact root lies below or above the middle, so that a rational number in the same half
can stand for it. A root is not smaller than any number whose square is not larger.
-/

set_option autoImplicit false

namespace RetainedScene.Binary32

open Float.Model (Format UnpackedFloat totalExponent)
open Float.Model.UnpackedFloat

/-- What is left beyond the whole root, compared with half of the next step. -/
def accuracyOfRoot (n : Nat) : Accuracy :=
  if n - n.sqrt * n.sqrt = 0 then .exact
  else .inexact (if n - n.sqrt * n.sqrt ≤ n.sqrt then .lt else .gt)

theorem describes_root (n : Nat) :
    ∃ r, Describes (.ofMantissaAndAccuracy n.sqrt (accuracyOfRoot n)) r := by
  unfold accuracyOfRoot
  split_ifs
  · exact ⟨n.sqrt, .exact n.sqrt⟩
  · refine ⟨n.sqrt + 1 / 4, ?_⟩
    constructor <;> rw [mantissa_ofMantissaAndAccuracy] <;> linarith
  · refine ⟨n.sqrt + 3 / 4, ?_⟩
    constructor <;> rw [mantissa_ofMantissaAndAccuracy] <;> linarith

/-- The number is shifted so far that its root has 24 bits, or the least exponent. -/
theorem sqrtCore_eq {m : Nat} (hm : 0 < m) (e : ℤ) :
    ∃ (shift : Nat) (t : ℤ), e = 2 * t + shift ∧
      sqrtCore .binary32 m e = ((m <<< shift).sqrt, t, accuracyOfRoot (m <<< shift)) ∧
      (23 ≤ (m <<< shift).sqrt.log2 ∨ t ≤ -149) := by
  obtain ⟨t, ht⟩ : ∃ t, t = min (e / 2) (max (((m.log2 : ℤ) + 1 + e + 1) / 2 - 24) (-149)) :=
    ⟨_, rfl⟩
  refine ⟨(e - 2 * t).toNat, t, by omega, ?_, ?_⟩
  · subst ht
    rfl
  by_cases hleast : t ≤ -149
  · exact .inr hleast
  left
  have hbits : 46 ≤ m.log2 + (e - 2 * t).toNat := by omega
  generalize (e - 2 * t).toNat = shift at hbits
  have hlarge : (2 ^ 23) ^ 2 ≤ m <<< shift :=
    calc (2 ^ 23) ^ 2 = 2 ^ 46 := by norm_num
      _ ≤ 2 ^ (m <<< shift).log2 := by
        rw [log2_shiftLeft hm]
        exact Nat.pow_le_pow_right two_pos hbits
      _ ≤ m <<< shift := Nat.log2_self_le (Nat.shiftLeft_pos_iff.mpr hm).ne'
  have hroot : 2 ^ 23 ≤ (m <<< shift).sqrt := Nat.le_sqrt'.mpr hlarge
  exact (Nat.le_log2 (by omega)).mpr hroot

theorem round_ne_neg_zero (m : Nat) (e : ℤ) (accuracy : Accuracy) :
    Float32.ofModel (.pack (roundWithAccuracy .binary32 .positive m e accuracy)) ≠ -0 := by
  have hsign : @unpackSign .binary32
      ((roundWithAccuracy .binary32 .positive m e accuracy).pack .binary32) = 0#1 := by
    unfold roundWithAccuracy
    dsimp only
    split_ifs
    · exact unpackSign_packComponents ..
    · simp only [UnpackedFloat.pack]
      split_ifs <;> exact unpackSign_packComponents ..
  intro h
  have hbit := congrArg (fun x : Float32 => @unpackSign .binary32 x.toModel.toBits.toBitVec) h
  exact absurd (hsign.symm.trans hbit) (by decide)

section

variable {x : Float32} {q : ℚ}

theorem representable_two_zpow {t : ℤ} (hleast : -149 ≤ t) (hlimit : t < 128) :
    Representable (2 ^ t) := by
  have hlimit' : (2 : ℚ) ^ t < 2 ^ 128 := by
    rw [← zpow_natCast]
    exact zpow_lt_zpow_right₀ (by norm_num) (by push_cast; omega)
  exact ⟨1, t, by simp, by norm_num, hleast, by rwa [abs_of_pos (by positivity)]⟩

/-- A positive number is at least the smallest one. -/
theorem Representable.two_zpow_le (h : Representable q) (hq : 0 < q) : (2 : ℚ) ^ (-149 : ℤ) ≤ q := by
  obtain ⟨n, t, rfl, -, ht, -⟩ := h
  have hn : (1 : ℚ) ≤ n := by
    have := pos_of_mul_pos_left hq (by positivity)
    exact_mod_cast this
  calc (2 : ℚ) ^ (-149 : ℤ) ≤ 2 ^ t := zpow_le_zpow_right₀ (by norm_num) ht
    _ ≤ n * 2 ^ t := le_mul_of_one_le_left (by positivity) hn

/-- A number whose square is at most that of the root is at most the whole part of the root. -/
theorem scaled_le_root {m n : Nat} {s t : ℤ} (hbits : 23 ≤ m.sqrt.log2 ∨ t ≤ -149)
    (hn : n ≤ 2 ^ 24) (hs : -149 ≤ s) (hsquare : ((n : ℚ) * 2 ^ s) ^ 2 ≤ m * (2 ^ t * 2 ^ t)) :
    (n : ℚ) * 2 ^ s ≤ m.sqrt * 2 ^ t := by
  rcases le_or_gt t s with hts | hst
  -- At an exponent from that of the root on, the number is whole as the root is.
  · rw [Nearest.scaled_shift n hts] at hsquare ⊢
    rw [mul_pow, pow_two (2 ^ t : ℚ)] at hsquare
    have hsquare' := le_of_mul_le_mul_right hsquare (by positivity)
    have hle : n * 2 ^ (s - t).toNat ≤ m.sqrt := Nat.le_sqrt'.mpr (by exact_mod_cast hsquare')
    have hle' : ((n * 2 ^ (s - t).toNat : Nat) : ℚ) ≤ m.sqrt := by exact_mod_cast hle
    gcongr
  · have hlog : 23 ≤ m.sqrt.log2 := hbits.resolve_right (by omega)
    have hpos : m.sqrt ≠ 0 := by
      intro hzero
      rw [hzero, Nat.log2_zero] at hlog
      omega
    have hfull : (2 : ℚ) ^ 23 ≤ m.sqrt := by exact_mod_cast (Nat.le_log2 hpos).mp hlog
    calc (n : ℚ) * 2 ^ s ≤ 2 ^ 23 * 2 ^ t := Nearest.scaled_le_full hn hst
      _ ≤ m.sqrt * 2 ^ t := by gcongr

/-- The whole part of the root is at most any number whose square is at least that of the root. -/
theorem root_le_scaled {m : Nat} {t : ℤ} (hq : 0 ≤ q) (hsquare : (m : ℚ) * (2 ^ t * 2 ^ t) ≤ q ^ 2) :
    (m.sqrt : ℚ) * 2 ^ t ≤ q := by
  refine (sq_le_sq₀ (by positivity) hq).mp ?_
  have hroot : ((m.sqrt : ℚ)) ^ 2 ≤ m := by exact_mod_cast Nat.sqrt_le' m
  calc ((m.sqrt : ℚ) * 2 ^ t) ^ 2 = (m.sqrt : ℚ) ^ 2 * (2 ^ t * 2 ^ t) := by ring
    _ ≤ (m : ℚ) * (2 ^ t * 2 ^ t) := by gcongr
    _ ≤ q ^ 2 := hsquare

/-- What is rounded to the root, between numbers whose squares are known. Above it the whole part
    may be one short, which is at most as much again. -/
theorem RoundsTo.sqrt_between (hx : x.isFinite = true) (hpos : 0 < value x) :
    ∃ v, RoundsTo v x.sqrt ∧ (∀ q, Representable q → 0 ≤ q → q ^ 2 ≤ value x → q ≤ v) ∧
      ∀ q, 0 ≤ q → value x ≤ q ^ 2 → v ≤ 2 * q := by
  change ∃ v, RoundsTo v (.ofModel (.pack (x.toModel.unpack.sqrt .binary32))) ∧ _
  obtain ⟨m, e, hm, hu⟩ := exists_positive hx hpos
  unfold value
  rw [hu]
  obtain ⟨shift, t, rfl, hcore, hbits⟩ := sqrtCore_eq hm e
  obtain ⟨r, hr⟩ := describes_root (m <<< shift)
  obtain ⟨hlow, hhigh⟩ := hr.bounds
  rw [mantissa_ofMantissaAndAccuracy] at hlow hhigh
  have hsqrt : UnpackedFloat.sqrt .binary32 (.finite .positive m (2 * t + shift) hm) =
      roundWithAccuracy .binary32 .positive (m <<< shift).sqrt t (accuracyOfRoot (m <<< shift)) := by
    rw [UnpackedFloat.sqrt, hcore]
  have hvalue : valueOf (.finite .positive m (2 * t + shift) hm) =
      (m <<< shift : Nat) * (2 ^ t * 2 ^ t) := by
    rw [valueOf, signed, ← shiftLeft_value m shift, add_sub_cancel_right, two_mul,
      zpow_add₀ two_ne_zero]
  have hunit : (0 : ℚ) < 2 ^ t := by positivity
  rw [hsqrt, hvalue]
  refine ⟨r * 2 ^ t, .of_renders (renders_roundWithAccuracy .positive hr hbits), ?_, ?_⟩
  · intro q hq hq0 hsquare
    obtain ⟨n, s, rfl, hn, hs⟩ := hq.magnitude hq0
    calc (n : ℚ) * 2 ^ s ≤ (m <<< shift).sqrt * 2 ^ t := scaled_le_root hbits hn hs hsquare
      _ ≤ r * 2 ^ t := by gcongr
  · intro q hq hsquare
    have hroot := root_le_scaled hq hsquare
    have hone : (1 : ℚ) ≤ (m <<< shift).sqrt := by
      exact_mod_cast Nat.sqrt_pos.mpr (Nat.shiftLeft_pos_iff.mpr hm)
    have hscaled : r * 2 ^ t ≤ 2 * (m <<< shift).sqrt * 2 ^ t :=
      mul_le_mul_of_nonneg_right (by linarith) hunit.le
    linarith

theorem RoundsTo.sqrt (hx : x.isFinite = true) (hpos : 0 < value x) :
    ∃ v, RoundsTo v x.sqrt ∧ ∀ q, Representable q → 0 ≤ q → q ^ 2 ≤ value x → q ≤ v := by
  obtain ⟨v, hround, hsquares, -⟩ := RoundsTo.sqrt_between hx hpos
  exact ⟨v, hround, hsquares⟩

theorem IsInfinite.sqrt (hx : IsInfinite .positive x) : IsInfinite .positive x.sqrt := by
  refine isInfinite_pack (u := x.toModel.unpack.sqrt .binary32) ?_
  rw [show x.toModel.unpack = .infinity .positive from hx]
  rfl

/-- The root of a positive number is far above the least normal number. -/
theorem atLeast_sqrt (hx : AtLeast x 0) (hpos : ¬ x ≤ 0) : AtLeast x.sqrt (2 ^ (-75 : ℤ)) := by
  rcases hx with hx | ⟨hx, -⟩
  · exact .inl hx.sqrt
  have hvalue : 0 < value x := by
    rw [value_pos_iff hx]
    exact lt_of_not_le (isNaN_of_isFinite hx) rfl hpos
  obtain ⟨v, hround, hsquares⟩ := RoundsTo.sqrt hx hvalue
  have hq : Representable (2 ^ (-75 : ℤ)) := representable_two_zpow (by norm_num) (by norm_num)
  refine hround.atLeast hq (hsquares _ hq (by positivity) ?_)
  calc ((2 : ℚ) ^ (-75 : ℤ)) ^ 2 ≤ 2 ^ (-149 : ℤ) := by norm_num
    _ ≤ value x := (value_representable x).two_zpow_le hvalue

end

end RetainedScene.Binary32
