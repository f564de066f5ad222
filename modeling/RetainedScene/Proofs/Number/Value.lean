import RetainedScene.Proofs.Number.Order
import RetainedScene.Proofs.Number.Packing

/-!
# Values of binary32 numbers

A finite number stands for a rational one. Bounds on a number that may be infinite are stated with
`AtMost` and `AtLeast`; NaN satisfies neither of them.
-/

set_option autoImplicit false

namespace RetainedScene.Binary32

open Float.Model (Format UnpackedFloat)
open Float.Model.UnpackedFloat

def signed : Sign → ℚ → ℚ
  | .negative, q => -q
  | .positive, q => q

/-- Infinities and NaN count as zero. -/
def valueOf : UnpackedFloat → ℚ
  | .finite sign mantissa exponent _ => signed sign (mantissa * 2 ^ exponent)
  | _ => 0

def value (x : Float32) : ℚ :=
  valueOf x.toModel.unpack

def IsInfinite (sign : Sign) (x : Float32) : Prop :=
  x.toModel.unpack = .infinity sign

def AtMost (x : Float32) (q : ℚ) : Prop :=
  IsInfinite .negative x ∨ x.isFinite = true ∧ value x ≤ q

def AtLeast (x : Float32) (q : ℚ) : Prop :=
  IsInfinite .positive x ∨ x.isFinite = true ∧ q ≤ value x

/-- The rational numbers that some finite binary32 number stands for. -/
def Representable (q : ℚ) : Prop :=
  ∃ n t : ℤ, q = n * 2 ^ t ∧ |n| ≤ 2 ^ 24 ∧ -149 ≤ t ∧ |q| < 2 ^ 128

theorem signed_neg (sign : Sign) (q : ℚ) : signed (-sign) q = -signed sign q := by
  cases sign
  · exact (neg_neg q).symm
  · rfl

theorem abs_signed {q : ℚ} (hq : 0 ≤ q) (sign : Sign) : |signed sign q| = q := by
  cases sign
  · exact (abs_neg q).trans (abs_of_nonneg hq)
  · exact abs_of_nonneg hq

/-- Of two canonical numbers the one with the larger exponent is larger. -/
theorem scaled_lt_scaled {m n : Nat} {e f : ℤ} (hm : Canonical m e) (hn : Canonical n f)
    (h : e < f ∨ e = f ∧ m < n) : (m : ℚ) * 2 ^ e < n * 2 ^ f := by
  rcases h with hlt | ⟨rfl, hlt⟩
  · have hfull : (2 : ℚ) ^ 23 ≤ n := by
      exact_mod_cast hn.full.resolve_right (by have := hm.least; omega)
    have hbelow : (m : ℚ) < 2 ^ 24 := by exact_mod_cast hm.below
    have hpow : (2 : ℚ) * 2 ^ e ≤ 2 ^ f := by
      rw [← zpow_one_add₀ (by norm_num)]
      exact zpow_le_zpow_right₀ (by norm_num) (by omega)
    have hpos : (0 : ℚ) < 2 ^ e := by positivity
    calc (m : ℚ) * 2 ^ e < 2 ^ 24 * 2 ^ e := mul_lt_mul_of_pos_right hbelow hpos
      _ = 2 ^ 23 * (2 * 2 ^ e) := by ring
      _ ≤ n * 2 ^ f := mul_le_mul hfull hpow (by positivity) (by positivity)
  · have hlt' : (m : ℚ) < n := by exact_mod_cast hlt
    exact mul_lt_mul_of_pos_right hlt' (by positivity)

theorem valueOf_zero (sign : Sign) : valueOf (.zero sign) = 0 := rfl

theorem zero_or_finite {u : UnpackedFloat} (h : u.isFinite = true) :
    (∃ sign, u = .zero sign) ∨ ∃ sign m e hm, u = .finite sign m e hm := by
  cases u with
  | notANumber => cases h
  | infinity sign => cases h
  | zero sign => exact .inl ⟨sign, rfl⟩
  | finite sign m e hm => exact .inr ⟨sign, m, e, hm, rfl⟩

theorem valueOf_lt {u v : UnpackedFloat} (hu : IsCanonical u) (hv : IsCanonical v)
    (hu' : u.isFinite = true) (hv' : v.isFinite = true) (h : rankOf u < rankOf v) :
    valueOf u < valueOf v := by
  obtain ⟨s, rfl⟩ | ⟨s, m, e, hm, rfl⟩ := zero_or_finite hu' <;>
    obtain ⟨t, rfl⟩ | ⟨t, n, f, hn, rfl⟩ := zero_or_finite hv'
  · exact absurd h (lt_irrefl _)
  · cases t
    · simp [rankOf, Prod.Lex.toLex_lt_toLex] at h
    · simp only [valueOf, signed]
      positivity
  · cases s
    · simp only [valueOf, signed, neg_neg_iff_pos]
      positivity
    · simp [rankOf, Prod.Lex.toLex_lt_toLex] at h
  · have hpos : (0 : ℚ) < m * 2 ^ e := by positivity
    have hpos' : (0 : ℚ) < n * 2 ^ f := by positivity
    cases s <;> cases t <;> simp [rankOf, Prod.Lex.toLex_lt_toLex] at h <;>
      simp only [valueOf, signed]
    · exact neg_lt_neg (scaled_lt_scaled hv hu (h.imp id fun h => ⟨h.1.symm, h.2⟩))
    · linarith
    · exact scaled_lt_scaled hu hv h

theorem valueOf_eq {u v : UnpackedFloat} (hu : u.isFinite = true) (hv : v.isFinite = true)
    (h : rankOf u = rankOf v) : valueOf u = valueOf v := by
  obtain ⟨s, rfl⟩ | ⟨s, m, e, hm, rfl⟩ := zero_or_finite hu <;>
    obtain ⟨t, rfl⟩ | ⟨t, n, f, hn, rfl⟩ := zero_or_finite hv
  · rfl
  · cases t <;> simp [rankOf] at h
  · cases s <;> simp [rankOf] at h
  · cases s <;> cases t <;> simp [rankOf] at h <;> obtain ⟨rfl, rfl⟩ := h <;> rfl

section

variable {x y : Float32} {p q : ℚ}

theorem finite_or (hx : x.isNaN = false) : x.isFinite = true ∨ ∃ sign, IsInfinite sign x := by
  change x.toModel.unpack.isNaN = false at hx
  change x.toModel.unpack.isFinite = true ∨ ∃ sign, x.toModel.unpack = .infinity sign
  cases h : x.toModel.unpack with
  | notANumber =>
    rw [h] at hx
    cases hx
  | infinity sign => exact .inr ⟨sign, rfl⟩
  | zero sign => exact .inl rfl
  | finite sign m e hm => exact .inl rfl

theorem IsInfinite.isFinite {sign : Sign} (h : IsInfinite sign x) : x.isFinite = false :=
  congrArg UnpackedFloat.isFinite h

theorem IsInfinite.isNaN {sign : Sign} (h : IsInfinite sign x) : x.isNaN = false :=
  congrArg UnpackedFloat.isNaN h

theorem value_lt_iff (hx : x.isFinite = true) (hy : y.isFinite = true) :
    value x < value y ↔ x < y := by
  have hlt {x y : Float32} (hx : x.isFinite = true) (hy : y.isFinite = true)
      (h : rank x < rank y) : value x < value y :=
    valueOf_lt (unpack_isCanonical _).1 (unpack_isCanonical _).1 hx hy h
  rw [lt_iff_rank, isNaN_of_isFinite hx, isNaN_of_isFinite hy]
  simp only [true_and]
  refine ⟨fun h => ?_, hlt hx hy⟩
  rcases lt_trichotomy (rank x) (rank y) with hxy | hxy | hxy
  · exact hxy
  · exact absurd h (valueOf_eq hx hy hxy).not_lt
  · exact absurd h (hlt hy hx hxy).not_gt

theorem value_le_iff (hx : x.isFinite = true) (hy : y.isFinite = true) :
    value x ≤ value y ↔ x ≤ y := by
  rw [← not_lt, value_lt_iff hy hx]
  exact ⟨le_of_not_lt (isNaN_of_isFinite hy) (isNaN_of_isFinite hx), not_lt_of_le⟩

theorem rankOf_bounds {u : UnpackedFloat} (h : u.isNaN = false) :
    rankOf (.infinity .negative) ≤ rankOf u ∧ rankOf u ≤ rankOf (.infinity .positive) := by
  cases u with
  | notANumber => cases h
  | infinity s => cases s <;> simp [rankOf, Prod.Lex.toLex_le_toLex]
  | zero s => simp [rankOf, Prod.Lex.toLex_le_toLex]
  | finite s m e hm => cases s <;> simp [rankOf, Prod.Lex.toLex_le_toLex]

theorem eq_infinity_of_rankOf {u : UnpackedFloat} {sign : Sign}
    (h : rankOf u = rankOf (.infinity sign)) : u = .infinity sign := by
  cases sign <;> cases u with
  | notANumber => simp [rankOf] at h
  | infinity s => cases s <;> first | rfl | simp [rankOf] at h
  | zero s => simp [rankOf] at h
  | finite s m e hm => cases s <;> simp [rankOf] at h

theorem IsInfinite.le (hx : IsInfinite .negative x) (hy : y.isNaN = false) : x ≤ y := by
  refine le_iff_rank.mpr ⟨hx.isNaN, hy, ?_⟩
  rw [rank, hx]
  exact (rankOf_bounds hy).1

theorem IsInfinite.ge (hy : IsInfinite .positive y) (hx : x.isNaN = false) : x ≤ y := by
  refine le_iff_rank.mpr ⟨hx, hy.isNaN, ?_⟩
  rw [rank, rank, hy]
  exact (rankOf_bounds hx).2

theorem IsInfinite.of_le (hy : IsInfinite .negative y) (h : x ≤ y) : IsInfinite .negative x := by
  obtain ⟨hx, -, hrank⟩ := le_iff_rank.mp h
  rw [rank, rank, hy] at hrank
  exact eq_infinity_of_rankOf (le_antisymm hrank (rankOf_bounds hx).1)

theorem IsInfinite.of_ge (hx : IsInfinite .positive x) (h : x ≤ y) : IsInfinite .positive y := by
  obtain ⟨-, hy, hrank⟩ := le_iff_rank.mp h
  rw [rank, rank, hx] at hrank
  exact eq_infinity_of_rankOf (le_antisymm (rankOf_bounds hy).2 hrank)

theorem AtMost.isNaN (h : AtMost x q) : x.isNaN = false :=
  h.elim IsInfinite.isNaN fun h => isNaN_of_isFinite h.1

theorem AtLeast.isNaN (h : AtLeast x q) : x.isNaN = false :=
  h.elim IsInfinite.isNaN fun h => isNaN_of_isFinite h.1

theorem atMost_value (hx : x.isFinite = true) : AtMost x (value x) :=
  .inr ⟨hx, le_rfl⟩

theorem atLeast_value (hx : x.isFinite = true) : AtLeast x (value x) :=
  .inr ⟨hx, le_rfl⟩

theorem AtMost.mono (h : AtMost x p) (hpq : p ≤ q) : AtMost x q :=
  h.imp_right fun h => ⟨h.1, h.2.trans hpq⟩

theorem AtLeast.mono (h : AtLeast x q) (hpq : p ≤ q) : AtLeast x p :=
  h.imp_right fun h => ⟨h.1, hpq.trans h.2⟩

theorem AtMost.of_le (hy : AtMost y q) (h : x ≤ y) : AtMost x q := by
  rcases hy with hy | ⟨hy, hq⟩
  · exact .inl (hy.of_le h)
  · rcases finite_or (le_iff_rank.mp h).1 with hx | ⟨_ | _, hx⟩
    · exact .inr ⟨hx, ((value_le_iff hx hy).mpr h).trans hq⟩
    · exact .inl hx
    · rw [(hx.of_ge h).isFinite] at hy
      cases hy

theorem AtLeast.of_le (hx : AtLeast x q) (h : x ≤ y) : AtLeast y q := by
  rcases hx with hx | ⟨hx, hq⟩
  · exact .inl (hx.of_ge h)
  · rcases finite_or (le_iff_rank.mp h).2.1 with hy | ⟨_ | _, hy⟩
    · exact .inr ⟨hy, hq.trans ((value_le_iff hx hy).mpr h)⟩
    · rw [(hy.of_le h).isFinite] at hx
      cases hx
    · exact .inl hy

theorem AtMost.le (hx : AtMost x q) (hy : AtLeast y q) : x ≤ y := by
  rcases hx with hx | hx
  · exact hx.le hy.isNaN
  · rcases hy with hy | hy
    · exact hy.ge (isNaN_of_isFinite hx.1)
    · exact (value_le_iff hx.1 hy.1).mp (hx.2.trans hy.2)

theorem AtMost.isFinite (h : AtMost x q) (h' : AtLeast x p) : x.isFinite = true := by
  rcases h with h | h
  · rcases h' with h' | h'
    · cases h.symm.trans h'
    · exact h'.1
  · exact h.1

theorem AtMost.value_le (h : AtMost x q) (hx : x.isFinite = true) : value x ≤ q := by
  rcases h with h | h
  · rw [h.isFinite] at hx
    cases hx
  · exact h.2

theorem AtLeast.le_value (h : AtLeast x q) (hx : x.isFinite = true) : q ≤ value x := by
  rcases h with h | h
  · rw [h.isFinite] at hx
    cases hx
  · exact h.2

theorem value_pos_iff (hx : x.isFinite = true) : 0 < value x ↔ 0 < x :=
  value_lt_iff (x := 0) rfl hx

theorem exists_positive (hx : x.isFinite = true) (hpos : 0 < value x) :
    ∃ m e hm, x.toModel.unpack = .finite .positive m e hm := by
  unfold value at hpos
  obtain ⟨s, hu⟩ | ⟨_ | _, m, e, hm, hu⟩ := zero_or_finite hx <;> rw [hu] at hpos
  · exact absurd rfl hpos.ne
  · exact absurd hpos (not_lt.mpr (neg_nonpos.mpr (by positivity)))
  · exact ⟨m, e, hm, hu⟩

theorem atLeast_zero_iff : AtLeast x 0 ↔ 0 ≤ x := by
  have hzero : AtMost 0 0 ∧ AtLeast 0 0 := ⟨atMost_value rfl, atLeast_value rfl⟩
  exact ⟨hzero.1.le, hzero.2.of_le⟩

theorem representable_signed {m : Nat} {e : ℤ} (hm : m ≤ 2 ^ 24) (hleast : -149 ≤ e)
    (hlimit : (m : ℚ) * 2 ^ e < 2 ^ 128) (sign : Sign) : Representable (signed sign (m * 2 ^ e)) := by
  have hm' : |(m : ℤ)| ≤ 2 ^ 24 := by
    rw [Nat.abs_cast]
    exact_mod_cast hm
  have habs : |signed sign (m * 2 ^ e)| < 2 ^ 128 := (abs_signed (by positivity) sign).trans_lt hlimit
  cases sign with
  | negative => exact ⟨-m, e, by simp [signed], (abs_neg _).trans_le hm', hleast, habs⟩
  | positive => exact ⟨m, e, by simp [signed], hm', hleast, habs⟩

theorem Representable.neg (h : Representable q) : Representable (-q) := by
  obtain ⟨n, t, rfl, hn, ht, hlimit⟩ := h
  exact ⟨-n, t, by push_cast; ring, by rwa [abs_neg], ht, by rwa [abs_neg]⟩

theorem value_representable (x : Float32) : Representable (value x) := by
  obtain ⟨hcanonical, hstored⟩ := unpack_isCanonical x.toModel.toBits.toBitVec
  change Representable (valueOf (unpack .binary32 x.toModel.toBits.toBitVec))
  cases h : unpack .binary32 x.toModel.toBits.toBitVec with
  | finite sign m e hm =>
    rw [h] at hcanonical hstored
    obtain ⟨hbelow, hleast, -⟩ : Canonical m e := hcanonical
    have hfits : e ≤ 104 := by
      by_contra hlarge
      rw [overflowed, if_neg hlarge] at hstored
      cases hstored
    refine representable_signed hbelow.le hleast ?_ sign
    have hbelow' : (m : ℚ) < 2 ^ 24 := by exact_mod_cast hbelow
    calc (m : ℚ) * 2 ^ e < 2 ^ 24 * 2 ^ e := mul_lt_mul_of_pos_right hbelow' (by positivity)
      _ ≤ 2 ^ 24 * 2 ^ (104 : ℤ) := by gcongr; norm_num
      _ = 2 ^ 128 := by norm_num
  | _ => exact ⟨0, 0, by simp [valueOf], by norm_num, by norm_num, by norm_num [valueOf]⟩

theorem unpack_ofModel_pack {u : UnpackedFloat} (h : IsCanonical u) :
    (Float32.ofModel (.pack u)).toModel.unpack = overflowed u :=
  unpack_pack h

theorem overflowed_neg {u : UnpackedFloat} (h : overflowed u = u) : overflowed u.neg = u.neg := by
  cases u with
  | finite sign m e hm =>
    rw [overflowed] at h
    split_ifs at h with hfits
    exact if_pos hfits
  | _ => rfl

theorem unpack_neg (x : Float32) : (-x).toModel.unpack = x.toModel.unpack.neg := by
  obtain ⟨hcanonical, hstored⟩ := unpack_isCanonical x.toModel.toBits.toBitVec
  have hneg : IsCanonical x.toModel.unpack.neg := by
    change IsCanonical x.toModel.unpack at hcanonical
    generalize x.toModel.unpack = u at hcanonical ⊢
    cases u <;> exact hcanonical
  exact (unpack_ofModel_pack hneg).trans (overflowed_neg hstored)

theorem isFinite_neg : (-x).isFinite = x.isFinite := by
  change (-x).toModel.unpack.isFinite = x.toModel.unpack.isFinite
  rw [unpack_neg]
  cases x.toModel.unpack <;> rfl

theorem value_neg : value (-x) = -value x := by
  rw [value, value, unpack_neg]
  cases x.toModel.unpack with
  | finite sign m e hm => exact signed_neg sign _
  | _ => exact neg_zero.symm

theorem IsInfinite.neg {sign : Sign} (h : IsInfinite sign x) : IsInfinite (-sign) (-x) := by
  rw [IsInfinite, unpack_neg, h]
  rfl

theorem atLeast_iff_neg : AtLeast x q ↔ AtMost (-x) (-q) := by
  rw [AtLeast, AtMost, isFinite_neg, value_neg, neg_le_neg_iff, IsInfinite, IsInfinite, unpack_neg]
  have hpositive : -Sign.positive = .negative := rfl
  have hnegative : -Sign.negative = .positive := rfl
  cases x.toModel.unpack with
  | infinity sign => cases sign <;> simp [UnpackedFloat.neg, hpositive, hnegative]
  | _ => simp [UnpackedFloat.neg]

end

end RetainedScene.Binary32
