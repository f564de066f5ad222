import RetainedScene.Proofs.Number.Value

/-!
# Rounding to binary32

A rational number is cut off at the exponent that leaves it 24 bits, with a round bit and a sticky
bit for the rest, and goes to the nearest mantissa, from halfway to the even one. Representable
bounds survive that. What is more, a number that grows in small steps stops growing: half a unit in
the last place is lost.
-/

set_option autoImplicit false

namespace RetainedScene.Binary32

open Float.Model (Format UnpackedFloat totalExponent)
open Float.Model.UnpackedFloat

/-- The natural number nearest to `r`, the even one of two. -/
structure NearestEven (r : ℚ) (c : Nat) : Prop where
  near : |r - c| ≤ 1 / 2
  tie : |r - c| = 1 / 2 → Even c

namespace NearestEven

variable {r : ℚ} {c n : Nat}

theorem le (h : NearestEven r c) (hr : r ≤ n) : c ≤ n := by
  have hnear := (abs_le.mp h.near).1
  have hlt : (c : ℚ) < n + 1 := by linarith
  exact Nat.lt_succ_iff.mp (by exact_mod_cast hlt)

theorem ge (h : NearestEven r c) (hr : n ≤ r) : n ≤ c := by
  have hnear := (abs_le.mp h.near).2
  have hlt : (n : ℚ) < c + 1 := by linarith
  exact Nat.lt_succ_iff.mp (by exact_mod_cast hlt)

theorem le_of_half (h : NearestEven r c) (hr : r ≤ n + 1 / 2) (hn : Even n) : c ≤ n := by
  have hnear := (abs_le.mp h.near).1
  have hle : (c : ℚ) ≤ n + 1 := by linarith
  rcases (show c ≤ n + 1 by exact_mod_cast hle).lt_or_eq with hlt | rfl
  · exact Nat.lt_succ_iff.mp hlt
  -- One more than the even number would be a tie that went to the odd one.
  · have hdistance : |r - (n + 1 : Nat)| = 1 / 2 := by
      push_cast at hnear ⊢
      rw [show r - (n + 1) = -(1 / 2) by linarith, abs_neg, abs_of_pos (by norm_num)]
    exact absurd (h.tie hdistance) (Nat.not_even_iff_odd.mpr hn.add_one)

end NearestEven

theorem mantissa_ofMantissaAndAccuracy (m : Nat) (accuracy : Accuracy) :
    (ExtendedMantissa.ofMantissaAndAccuracy m accuracy).mantissa = m := by
  rcases accuracy with _ | _ | _ | _ <;> rfl

/-- What the round bit and the sticky bit say about the part below the mantissa. -/
def Describes (em : ExtendedMantissa) (r : ℚ) : Prop :=
  match em.roundBit, em.stickyBit with
  | false, false => r = em.mantissa
  | false, true => em.mantissa < r ∧ r < em.mantissa + 1 / 2
  | true, false => r = em.mantissa + 1 / 2
  | true, true => em.mantissa + 1 / 2 < r ∧ r < em.mantissa + 1

namespace Describes

variable {em : ExtendedMantissa} {r : ℚ}

theorem bounds (h : Describes em r) : em.mantissa ≤ r ∧ r < em.mantissa + 1 := by
  obtain ⟨m, _ | _, _ | _⟩ := em <;> simp only [Describes] at h <;> constructor <;> linarith

theorem shiftRightOne (h : Describes em r) : Describes em.shiftRightOne (r / 2) := by
  obtain ⟨m, round, sticky⟩ := em
  -- The lowest bit of the mantissa becomes the round bit, and both old bits the sticky one.
  have hhalf : (m : ℚ) = (m / 2 : Nat) * 2 + (m % 2 : Nat) := by
    exact_mod_cast (Nat.div_add_mod' m 2).symm
  rcases Nat.mod_two_eq_zero_or_one m with hmod | hmod <;> cases round <;> cases sticky <;>
    simp [Describes, ExtendedMantissa.shiftRightOne, hmod] at h hhalf ⊢ <;>
    first | linarith | constructor <;> linarith

theorem shiftRight (h : Describes em r) (n : Nat) : Describes (em >>> n) (r / 2 ^ n) := by
  induction n with
  | zero =>
    rw [pow_zero, div_one]
    exact h
  | succ n ih =>
    rw [pow_succ, ← div_div]
    exact ih.shiftRightOne

theorem nearestEven (h : Describes em r) : NearestEven r em.roundedMantissa := by
  obtain ⟨m, round, sticky⟩ := em
  cases round <;> cases sticky <;> simp only [Describes] at h
  · change NearestEven r m
    subst h
    exact ⟨by norm_num, by norm_num⟩
  · change NearestEven r m
    have habs : |r - m| < 1 / 2 := abs_lt.mpr ⟨by linarith, by linarith⟩
    exact ⟨habs.le, fun h => absurd h habs.ne⟩
  · change NearestEven r (m + m % 2)
    subst h
    rcases Nat.even_or_odd m with hm | hm
    · rw [Nat.even_iff.mp hm]
      exact ⟨by norm_num, fun _ => hm⟩
    · rw [Nat.odd_iff.mp hm]
      exact ⟨by norm_num, fun _ => hm.add_one⟩
  · change NearestEven r (m + 1)
    have habs : |r - (m + 1 : Nat)| < 1 / 2 := by
      push_cast
      exact abs_lt.mpr ⟨by linarith, by linarith⟩
    exact ⟨habs.le, fun h => absurd h habs.ne⟩

theorem exact (m : Nat) : Describes (.ofMantissaAndAccuracy m .exact) m := rfl

/-- A quotient is cut off at a whole number, and the remainder gives both bits. -/
theorem quotient (a : Nat) {b : Nat} (hb : 0 < b) :
    Describes (.ofMantissaAndAccuracy (a / b) (accuracyOfFraction (a % b) b)) (a / b) := by
  have hb' : (0 : ℚ) < b := by exact_mod_cast hb
  have hfraction : (a : ℚ) / b = (a / b : Nat) + (a % b : Nat) / b := by
    rw [div_eq_iff hb'.ne', add_mul, div_mul_cancel₀ _ hb'.ne']
    exact_mod_cast (Nat.div_add_mod' a b).symm
  have hbelow : ((a % b : Nat) : ℚ) / b < 1 := by
    rw [div_lt_one hb']
    exact_mod_cast Nat.mod_lt a hb
  rw [hfraction, accuracyOfFraction]
  split_ifs with hzero
  · rw [hzero]
    simp [Describes, ExtendedMantissa.ofMantissaAndAccuracy]
  · have hpos : (0 : ℚ) < (a % b : Nat) / b := by
      have : (0 : ℚ) < (a % b : Nat) := by exact_mod_cast Nat.pos_of_ne_zero hzero
      positivity
    rcases lt_trichotomy (2 * (a % b)) b with hlt | heq | hgt
    · rw [compare_lt_iff_lt.mpr hlt]
      have : (2 * (a % b : Nat) : ℚ) < b := by exact_mod_cast hlt
      have : ((a % b : Nat) : ℚ) / b < 1 / 2 := by
        rw [div_lt_div_iff₀ hb' two_pos]
        linarith
      constructor <;> rw [mantissa_ofMantissaAndAccuracy] <;> linarith
    · rw [compare_eq_iff_eq.mpr heq]
      have : (2 * (a % b : Nat) : ℚ) = b := by exact_mod_cast heq
      have : ((a % b : Nat) : ℚ) / b = 1 / 2 := by
        rw [div_eq_div_iff hb'.ne' two_ne_zero]
        linarith
      exact congrArg _ this
    · rw [compare_gt_iff_gt.mpr hgt]
      have : (b : ℚ) < 2 * (a % b : Nat) := by exact_mod_cast hgt
      have : 1 / 2 < ((a % b : Nat) : ℚ) / b := by
        rw [div_lt_div_iff₀ two_pos hb']
        linarith
      constructor <;> rw [mantissa_ofMantissaAndAccuracy] <;> linarith

end Describes

/-- `c` at exponent `t` is the magnitude that `v` rounds to. -/
structure Nearest (v : ℚ) (c : Nat) (t : ℤ) : Prop where
  nonneg : 0 ≤ v
  mantissa : NearestEven (v / 2 ^ t) c
  below : v < 2 ^ 24 * 2 ^ t
  least : -149 ≤ t
  full : t = -149 ∨ 2 ^ 23 * 2 ^ t ≤ v

namespace Nearest

variable {v : ℚ} {c : Nat} {t : ℤ}

theorem le_nat (h : Nearest v c t) {n : Nat} (hv : v ≤ n * 2 ^ t) : c ≤ n :=
  h.mantissa.le ((div_le_iff₀ (by positivity)).mpr hv)

theorem nat_le (h : Nearest v c t) {n : Nat} (hv : n * 2 ^ t ≤ v) : n ≤ c :=
  h.mantissa.ge ((le_div_iff₀ (by positivity)).mpr hv)

theorem mantissa_le (h : Nearest v c t) : c ≤ 2 ^ 24 :=
  h.le_nat (by exact_mod_cast h.below.le)

theorem full_mantissa (h : Nearest v c t) : t = -149 ∨ 2 ^ 23 ≤ c :=
  h.full.imp id fun hv => h.nat_le (by exact_mod_cast hv)

/-- At an exponent from `t` on a number is whole in units of `2 ^ t`. -/
theorem scaled_shift (n : Nat) {s : ℤ} (hs : t ≤ s) :
    (n : ℚ) * 2 ^ s = (n * 2 ^ (s - t).toNat : Nat) * 2 ^ t := by
  have hpow : (2 : ℚ) ^ s = 2 ^ (s - t).toNat * 2 ^ t := by
    rw [← zpow_natCast, ← zpow_add₀ two_ne_zero]
    congr 1
    omega
  rw [hpow]
  push_cast
  ring

/-- Below the exponent of the result, `n` at exponent `s` is no more than its least mantissa. -/
theorem scaled_le_full {n : Nat} (hn : n ≤ 2 ^ 24) {s : ℤ} (hs : s < t) :
    (n : ℚ) * 2 ^ s ≤ 2 ^ 23 * 2 ^ t := by
  have hn' : (n : ℚ) ≤ 2 ^ 24 := by exact_mod_cast hn
  have hpow : (2 : ℚ) * 2 ^ s ≤ 2 ^ t := by
    rw [← zpow_one_add₀ (by norm_num)]
    exact zpow_le_zpow_right₀ (by norm_num) (by omega)
  calc (n : ℚ) * 2 ^ s ≤ 2 ^ 24 * 2 ^ s := by gcongr
    _ = 2 ^ 23 * (2 * 2 ^ s) := by ring
    _ ≤ 2 ^ 23 * 2 ^ t := by gcongr

theorem le (h : Nearest v c t) {n : Nat} {s : ℤ} (hn : n ≤ 2 ^ 24) (hs : -149 ≤ s)
    (hv : v ≤ n * 2 ^ s) : c * 2 ^ t ≤ (n : ℚ) * 2 ^ s := by
  rcases le_or_gt t s with hts | hst
  · rw [scaled_shift n hts] at hv ⊢
    have hc : (c : ℚ) ≤ (n * 2 ^ (s - t).toNat : Nat) := by exact_mod_cast h.le_nat hv
    gcongr
  -- The bound is then the least number of the exponent of `v`, and `v` is equal to it.
  · have hfull : 2 ^ 23 * 2 ^ t ≤ v := h.full.resolve_left (by omega)
    have hle := scaled_le_full hn hst
    have hmantissa : c ≤ 2 ^ 23 := h.le_nat (by push_cast; linarith)
    have hc : (c : ℚ) ≤ 2 ^ 23 := by exact_mod_cast hmantissa
    calc (c : ℚ) * 2 ^ t ≤ 2 ^ 23 * 2 ^ t := by gcongr
      _ ≤ n * 2 ^ s := hfull.trans hv

theorem ge (h : Nearest v c t) {n : Nat} {s : ℤ} (hn : n ≤ 2 ^ 24) (hs : -149 ≤ s)
    (hv : n * 2 ^ s ≤ v) : (n : ℚ) * 2 ^ s ≤ c * 2 ^ t := by
  rcases le_or_gt t s with hts | hst
  · rw [scaled_shift n hts] at hv ⊢
    have hc : ((n * 2 ^ (s - t).toNat : Nat) : ℚ) ≤ c := by exact_mod_cast h.nat_le hv
    gcongr
  · have hc : (2 : ℚ) ^ 23 ≤ c := by
      exact_mod_cast h.full_mantissa.resolve_left (by omega)
    calc (n : ℚ) * 2 ^ s ≤ 2 ^ 23 * 2 ^ t := scaled_le_full hn hst
      _ ≤ c * 2 ^ t := by gcongr

/-- Half a unit in the last place beyond a power of two is lost. -/
theorem le_of_half (h : Nearest v c t) {s : ℤ} (hs : -149 ≤ s) (hv : v ≤ (2 ^ 24 + 1) * 2 ^ s) :
    (c : ℚ) * 2 ^ t ≤ 2 ^ 24 * 2 ^ s := by
  rcases lt_trichotomy t (s + 1) with hlt | rfl | hgt
  · have hc : (c : ℚ) ≤ 2 ^ 24 := by exact_mod_cast h.mantissa_le
    have hpow : (2 : ℚ) ^ t ≤ 2 ^ s := zpow_le_zpow_right₀ (by norm_num) (by omega)
    gcongr
  · have hpow : (2 : ℚ) ^ (s + 1) = 2 ^ s * 2 := zpow_add_one₀ two_ne_zero s
    have hhalf : v / 2 ^ (s + 1) ≤ (2 ^ 23 : Nat) + 1 / 2 := by
      rw [div_le_iff₀ (by positivity), hpow]
      push_cast
      linarith
    have hc : (c : ℚ) ≤ 2 ^ 23 := by
      exact_mod_cast h.mantissa.le_of_half hhalf (by decide)
    calc (c : ℚ) * 2 ^ (s + 1) ≤ 2 ^ 23 * 2 ^ (s + 1) := by gcongr
      _ = 2 ^ 24 * 2 ^ s := by rw [hpow]; ring
  · have hfull : 2 ^ 23 * 2 ^ t ≤ v := h.full.resolve_left (by omega)
    have hpow : (2 : ℚ) ^ s * 2 ^ 2 ≤ 2 ^ t := by
      rw [← zpow_natCast, ← zpow_add₀ two_ne_zero]
      exact zpow_le_zpow_right₀ (by norm_num) (by push_cast; omega)
    have hpos : (0 : ℚ) < 2 ^ s := by positivity
    exact absurd hv (not_le.mpr (by linarith))

end Nearest

theorem mantissa_shiftRight (em : ExtendedMantissa) (n : Nat) :
    (em >>> n).mantissa = em.mantissa / 2 ^ n := by
  induction n with
  | zero => exact (Nat.div_one _).symm
  | succ n ih =>
    rw [pow_succ, ← Nat.div_div_eq_div_mul, ← ih]
    rfl

theorem shiftToTargetExponent_eq (m : Nat) (e : ℤ) (accuracy : Accuracy) (shift : Nat)
    (h : (max ((m.log2 : ℤ) + 1 + e - 24) (-149) - e).toNat = shift) :
    shiftToTargetExponent .binary32 m e accuracy =
      (ExtendedMantissa.ofMantissaAndAccuracy m accuracy >>> shift, e + shift) := by
  subst h
  rfl

/-- A number that is not cut off yet below 24 bits is rounded to the nearest. -/
theorem nearest_shiftToTargetExponent {m : Nat} {e : ℤ} {accuracy : Accuracy} {r : ℚ}
    (hr : Describes (.ofMantissaAndAccuracy m accuracy) r) (he : 23 ≤ m.log2 ∨ e ≤ -149) :
    Nearest (r * 2 ^ e)
      (shiftToTargetExponent .binary32 m e accuracy).1.roundedMantissa
      (shiftToTargetExponent .binary32 m e accuracy).2 := by
  obtain ⟨shift, hshift⟩ : ∃ shift : Nat, e + shift = max ((m.log2 : ℤ) + 1 + e - 24) (-149) :=
    ⟨(max ((m.log2 : ℤ) + 1 + e - 24) (-149) - e).toNat, by omega⟩
  rw [shiftToTargetExponent_eq m e accuracy shift (by omega)]
  dsimp only
  obtain ⟨hlow, hhigh⟩ := hr.bounds
  rw [mantissa_ofMantissaAndAccuracy] at hlow hhigh
  have hpow : (2 : ℚ) ^ (e + shift) = 2 ^ e * 2 ^ shift := by
    rw [zpow_add₀ two_ne_zero, zpow_natCast]
  have hnonneg : 0 ≤ r := (Nat.cast_nonneg m).trans hlow
  refine ⟨by positivity, ?_, ?_, by omega, ?_⟩
  · have hscale : r * 2 ^ e / 2 ^ (e + shift : ℤ) = r / 2 ^ shift := by
      rw [hpow]
      field_simp
    rw [hscale]
    exact (hr.shiftRight shift).nearestEven
  · have hbits : m + 1 ≤ 2 ^ (24 + shift) :=
      Nat.lt_log2_self.trans_le (Nat.pow_le_pow_right two_pos (by omega))
    have hbits' : (m : ℚ) + 1 ≤ 2 ^ 24 * 2 ^ shift := by
      rw [← pow_add]
      exact_mod_cast hbits
    calc r * 2 ^ e < 2 ^ 24 * 2 ^ shift * 2 ^ e :=
          mul_lt_mul_of_pos_right (hhigh.trans_le hbits') (by positivity)
      _ = 2 ^ 24 * 2 ^ (e + shift : ℤ) := by rw [hpow]; ring
  · rcases eq_or_ne (e + shift : ℤ) (-149) with hleast | hleast
    · exact .inl hleast
    · right
      have hlog : m.log2 = 23 + shift := by omega
      have hbits : 2 ^ (23 + shift) ≤ m := by
        rw [← hlog]
        exact Nat.log2_self_le (by rintro rfl; rw [Nat.log2_zero] at hlog; omega)
      have hbits' : (2 : ℚ) ^ 23 * 2 ^ shift ≤ m := by
        rw [← pow_add]
        exact_mod_cast hbits
      calc (2 : ℚ) ^ 23 * 2 ^ (e + shift : ℤ) = 2 ^ 23 * 2 ^ shift * 2 ^ e := by rw [hpow]; ring
        _ ≤ r * 2 ^ e := by gcongr; exact hbits'.trans hlow

/-- A mantissa that was rounded up to 2²⁴ is halved at the next exponent. -/
theorem shiftToTargetExponent_exact {c : Nat} {t : ℤ} (hc : c ≤ 2 ^ 24) (hleast : -149 ≤ t)
    (hfull : t = -149 ∨ 2 ^ 23 ≤ c) :
    Canonical (shiftToTargetExponent .binary32 c t .exact).1.mantissa
        (shiftToTargetExponent .binary32 c t .exact).2 ∧
      ((shiftToTargetExponent .binary32 c t .exact).1.mantissa : ℚ) *
        2 ^ (shiftToTargetExponent .binary32 c t .exact).2 = c * 2 ^ t := by
  rcases hc.lt_or_eq with hlt | rfl
  · have hlog : c.log2 ≤ 23 := by
      rcases Nat.eq_zero_or_pos c with rfl | hpos
      · decide
      · exact Nat.lt_succ_iff.mp ((Nat.log2_lt hpos.ne').mpr hlt)
    rw [shiftToTargetExponent_eq c t .exact 0 (by omega)]
    simp only [mantissa_shiftRight, mantissa_ofMantissaAndAccuracy, pow_zero, Nat.div_one,
      Nat.cast_zero, add_zero]
    exact ⟨⟨hlt, hleast, hfull.symm⟩, trivial⟩
  · have hlog : (2 ^ 24).log2 = 24 := Nat.log2_two_pow
    rw [shiftToTargetExponent_eq (2 ^ 24) t .exact 1 (by omega)]
    simp only [mantissa_shiftRight, mantissa_ofMantissaAndAccuracy]
    refine ⟨⟨by norm_num, by omega, .inl (by norm_num)⟩, ?_⟩
    rw [Nat.cast_one, zpow_add_one₀ two_ne_zero]
    norm_num
    ring

/-- What an operation has before it is stored: a canonical number of magnitude `q`. -/
structure Renders (u : UnpackedFloat) (sign : Sign) (q : ℚ) : Prop where
  canonical : IsCanonical u
  shape : u = .zero sign ∧ q = 0 ∨ ∃ m e h, u = .finite sign m e h ∧ (m : ℚ) * 2 ^ e = q

theorem renders_roundWithAccuracy (sign : Sign) {m : Nat} {e : ℤ} {accuracy : Accuracy} {r : ℚ}
    (hr : Describes (.ofMantissaAndAccuracy m accuracy) r) (he : 23 ≤ m.log2 ∨ e ≤ -149) :
    ∃ c t, Nearest (r * 2 ^ e) c t ∧
      Renders (roundWithAccuracy .binary32 sign m e accuracy) sign (c * 2 ^ t) := by
  have hnearest := nearest_shiftToTargetExponent hr he
  obtain ⟨hcanonical, hvalue⟩ :=
    shiftToTargetExponent_exact hnearest.mantissa_le hnearest.least hnearest.full_mantissa
  refine ⟨_, _, hnearest, ?_⟩
  unfold roundWithAccuracy
  dsimp only
  split_ifs with hzero
  · rw [hzero] at hvalue
    exact ⟨trivial, .inl ⟨rfl, by rw [← hvalue]; simp⟩⟩
  · exact ⟨hcanonical, .inr ⟨_, _, _, rfl, hvalue⟩⟩

/-- `x` has the magnitude `q`, or is infinite where that is too large. -/
def Stores (x : Float32) (sign : Sign) (q : ℚ) : Prop :=
  (x.isFinite = true ∧ value x = signed sign q) ∨ (IsInfinite sign x ∧ 2 ^ 128 ≤ q)

theorem Renders.stores {u : UnpackedFloat} {sign : Sign} {q : ℚ} (h : Renders u sign q) :
    Stores (.ofModel (.pack u)) sign q := by
  have hunpack := unpack_ofModel_pack h.canonical
  obtain ⟨rfl, rfl⟩ | ⟨m, e, hm, rfl, rfl⟩ := h.shape
  · left
    rw [Float32.isFinite, Float32.Model.isFinite, value, hunpack]
    exact ⟨rfl, by cases sign <;> simp [overflowed, valueOf, signed]⟩
  · obtain ⟨-, -, hfull⟩ : Canonical m e := h.canonical
    rw [overflowed] at hunpack
    split_ifs at hunpack with hfits
    · left
      rw [Float32.isFinite, Float32.Model.isFinite, value, hunpack]
      exact ⟨rfl, rfl⟩
    · refine .inr ⟨hunpack, ?_⟩
      have hm' : (2 : ℚ) ^ 23 ≤ m := by exact_mod_cast hfull.resolve_right (by omega)
      have hpow : (2 : ℚ) ^ (105 : ℤ) ≤ 2 ^ e := zpow_le_zpow_right₀ (by norm_num) (by omega)
      calc (2 : ℚ) ^ 128 = 2 ^ 23 * 2 ^ (105 : ℤ) := by norm_num
        _ ≤ (m : ℚ) * 2 ^ e := by gcongr

/-- `x` is what an operation with the exact result `v` returns. -/
def RoundsTo (v : ℚ) (x : Float32) : Prop :=
  ∃ sign q c t, v = signed sign q ∧ Nearest q c t ∧ Stores x sign (c * 2 ^ t)

theorem Representable.magnitude {q : ℚ} (h : Representable q) (hq : 0 ≤ q) :
    ∃ (n : Nat) (s : ℤ), q = n * 2 ^ s ∧ n ≤ 2 ^ 24 ∧ -149 ≤ s := by
  obtain ⟨n, s, rfl, hn, hs, -⟩ := h
  have hn0 : 0 ≤ n := by
    have := nonneg_of_mul_nonneg_left hq (by positivity)
    exact_mod_cast this
  rw [abs_of_nonneg hn0] at hn
  exact ⟨n.toNat, s, by rw [← Int.cast_natCast, Int.toNat_of_nonneg hn0], by omega, hs⟩

namespace RoundsTo

variable {v q : ℚ} {x : Float32}

theorem atMost (h : RoundsTo v x) (hq : Representable q) (hv : v ≤ q) : AtMost x q := by
  obtain ⟨sign, m, c, t, rfl, hm, hx⟩ := h
  cases sign with
  | negative =>
    rcases hx with ⟨hfinite, hvalue⟩ | ⟨hinfinite, -⟩
    · refine .inr ⟨hfinite, hvalue.trans_le ?_⟩
      rw [signed] at hv ⊢
      rcases le_total 0 q with hq0 | hq0
      · have : (0 : ℚ) ≤ c * 2 ^ t := by positivity
        linarith
      · obtain ⟨n, s, heq, hn, hs⟩ := hq.neg.magnitude (neg_nonneg.mpr hq0)
        have := hm.ge hn hs (by linarith)
        linarith
    · exact .inl hinfinite
  | positive =>
    obtain ⟨n, s, heq, hn, hs⟩ := hq.magnitude (hm.nonneg.trans hv)
    have hle : (c : ℚ) * 2 ^ t ≤ q := by
      rw [heq] at hv ⊢
      exact hm.le hn hs hv
    rcases hx with ⟨hfinite, hvalue⟩ | ⟨-, hlarge⟩
    · exact .inr ⟨hfinite, hvalue.trans_le hle⟩
    · obtain ⟨-, -, -, -, -, hlimit⟩ := hq
      exact absurd (hlarge.trans hle) (not_le.mpr ((le_abs_self q).trans_lt hlimit))

theorem neg (h : RoundsTo v x) : RoundsTo (-v) (-x) := by
  obtain ⟨sign, m, c, t, rfl, hm, hx⟩ := h
  refine ⟨-sign, m, c, t, (signed_neg sign m).symm, hm, ?_⟩
  rcases hx with ⟨hfinite, hvalue⟩ | ⟨hinfinite, hlarge⟩
  · exact .inl ⟨isFinite_neg.trans hfinite, by rw [value_neg, hvalue, signed_neg]⟩
  · exact .inr ⟨hinfinite.neg, hlarge⟩

theorem atLeast (h : RoundsTo v x) (hq : Representable q) (hv : q ≤ v) : AtLeast x q :=
  atLeast_iff_neg.mpr (h.neg.atMost hq.neg (neg_le_neg hv))

/-- A result that is a number of its own is not rounded. -/
theorem exact (h : RoundsTo q x) (hq : Representable q) : x.isFinite = true ∧ value x = q := by
  have hmost := h.atMost hq le_rfl
  have hleast := h.atLeast hq le_rfl
  have hfinite := hmost.isFinite hleast
  exact ⟨hfinite, le_antisymm (hmost.value_le hfinite) (hleast.le_value hfinite)⟩

/-- What is at most half a unit beyond a power of two does not get past it. -/
theorem atMost_of_half (h : RoundsTo v x) {s : ℤ} (hs : -149 ≤ s) (hs' : s ≤ 103)
    (hv : v ≤ (2 ^ 24 + 1) * 2 ^ s) : AtMost x (2 ^ (s + 24)) := by
  obtain ⟨sign, m, c, t, rfl, hm, hx⟩ := h
  have hpow : (2 : ℚ) ^ (s + 24) = 2 ^ 24 * 2 ^ s := by
    rw [add_comm, zpow_add₀ two_ne_zero]
    norm_cast
  have hpos : (0 : ℚ) ≤ c * 2 ^ t := by positivity
  rw [hpow]
  cases sign with
  | negative =>
    rcases hx with ⟨hfinite, hvalue⟩ | ⟨hinfinite, -⟩
    · have : (0 : ℚ) ≤ 2 ^ 24 * 2 ^ s := by positivity
      exact .inr ⟨hfinite, hvalue.trans_le ((neg_nonpos.mpr hpos).trans this)⟩
    · exact .inl hinfinite
  | positive =>
    have hle := hm.le_of_half hs hv
    rcases hx with ⟨hfinite, hvalue⟩ | ⟨-, hlarge⟩
    · exact .inr ⟨hfinite, hvalue.trans_le hle⟩
    · have hlimit : (2 : ℚ) ^ 24 * 2 ^ s < 2 ^ 128 := by
        rw [← hpow]
        exact zpow_lt_zpow_right₀ (by norm_num) (show s + 24 < (128 : ℕ) by push_cast; omega)
      exact absurd (hlarge.trans hle) (not_le.mpr hlimit)

end RoundsTo

end RetainedScene.Binary32
