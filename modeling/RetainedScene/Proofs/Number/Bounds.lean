import RetainedScene.Proofs.Number.Arithmetic
import RetainedScene.Proofs.Number.Sign

/-!
# Bounds of binary32 results

Bounds are kept by sums and differences, also of infinite numbers, and by products and quotients of
numbers that are not negative. However many numbers of at most 2ᵏ are added up, their sum does not
get past 2ᵏ⁺²⁴, because from there on each of them is too small to count.
-/

set_option autoImplicit false

namespace RetainedScene.Binary32

open Float.Model (Format UnpackedFloat)
open Float.Model.UnpackedFloat

variable {x y : Float32} {p q r : ℚ}

theorem representable_two_pow {k : Nat} (hk : k ≤ 127) : Representable (2 ^ k) := by
  have hlimit : (2 : ℚ) ^ k < 2 ^ 128 := pow_lt_pow_right₀ (by norm_num) (by omega)
  exact ⟨1, k, by simp, by norm_num, by omega, by rwa [abs_of_pos (by positivity)]⟩

theorem Representable.two_pow_mul (h : Representable q) (k : Nat) (hlimit : |2 ^ k * q| < 2 ^ 128) :
    Representable (2 ^ k * q) := by
  obtain ⟨n, t, rfl, hn, ht, -⟩ := h
  refine ⟨n, t + k, ?_, hn, by omega, hlimit⟩
  rw [zpow_add₀ two_ne_zero, zpow_natCast]
  ring

theorem representable_zero : Representable 0 :=
  value_representable 0

theorem isInfinite_pack {u : UnpackedFloat} {sign : Sign} (h : u = .infinity sign) :
    IsInfinite sign (.ofModel (.pack u)) := by
  subst h
  exact unpack_packedInfinity sign

theorem IsInfinite.add {sign : Sign} (hx : IsInfinite sign x)
    (hy : IsInfinite sign y ∨ y.isFinite = true) : IsInfinite sign (x + y) := by
  refine isInfinite_pack (u := x.toModel.unpack.add .binary32 y.toModel.unpack) ?_
  rw [show x.toModel.unpack = .infinity sign from hx]
  rcases hy with hy | hy
  · rw [show y.toModel.unpack = .infinity sign from hy]
    cases sign <;> rfl
  · obtain ⟨t, hy⟩ | ⟨t, m, e, hm, hy⟩ := zero_or_finite hy <;> rw [hy] <;> rfl

theorem IsInfinite.finite_add {sign : Sign} (hx : x.isFinite = true) (hy : IsInfinite sign y) :
    IsInfinite sign (x + y) := by
  refine isInfinite_pack (u := x.toModel.unpack.add .binary32 y.toModel.unpack) ?_
  rw [show y.toModel.unpack = .infinity sign from hy]
  obtain ⟨t, hx⟩ | ⟨t, m, e, hm, hx⟩ := zero_or_finite hx <;> rw [hx] <;> rfl

theorem AtMost.add (hx : AtMost x p) (hy : AtMost y q) (hr : Representable r) (h : p + q ≤ r) :
    AtMost (x + y) r := by
  rcases hx with hx | ⟨hx, hp⟩
  · exact .inl (hx.add (hy.imp_right And.left))
  rcases hy with hy | ⟨hy, hq⟩
  · exact .inl (hy.finite_add hx)
  · exact (RoundsTo.add hx hy).atMost hr ((add_le_add hp hq).trans h)

theorem AtLeast.add (hx : AtLeast x p) (hy : AtLeast y q) (hr : Representable r)
    (h : r ≤ p + q) : AtLeast (x + y) r := by
  rcases hx with hx | ⟨hx, hp⟩
  · exact .inl (hx.add (hy.imp_right And.left))
  rcases hy with hy | ⟨hy, hq⟩
  · exact .inl (hy.finite_add hx)
  · exact (RoundsTo.add hx hy).atLeast hr (h.trans (add_le_add hp hq))

theorem AtLeast.add_nonneg (hx : AtLeast x 0) (hy : AtLeast y 0) : AtLeast (x + y) 0 :=
  hx.add hy representable_zero (by norm_num)

theorem AtLeast.neg (h : AtLeast x q) : AtMost (-x) (-q) :=
  atLeast_iff_neg.mp h

theorem IsInfinite.mul {sign : Sign} (hx : IsInfinite sign x) (hy : y.isFinite = true)
    (hpos : 0 < value y) : IsInfinite sign (x * y) := by
  refine isInfinite_pack (u := x.toModel.unpack.mul .binary32 y.toModel.unpack) ?_
  obtain ⟨m, e, hm, hy⟩ := exists_positive hy hpos
  rw [show x.toModel.unpack = .infinity sign from hx, hy]
  cases sign <;> rfl

theorem IsInfinite.div {sign : Sign} (hx : IsInfinite sign x) (hy : y.isFinite = true)
    (hpos : 0 < value y) : IsInfinite sign (x / y) := by
  refine isInfinite_pack (u := x.toModel.unpack.div .binary32 y.toModel.unpack) ?_
  obtain ⟨m, e, hm, hy⟩ := exists_positive hy hpos
  rw [show x.toModel.unpack = .infinity sign from hx, hy]
  cases sign <;> rfl

/-- A quotient by a positive number keeps the sign, also of infinity. -/
theorem AtLeast.div (hx : AtLeast x 0) (hy : y.isFinite = true) (hpos : 0 < value y) :
    AtLeast (x / y) 0 := by
  rcases hx with hx | ⟨hx, hx'⟩
  · exact .inl (hx.div hy hpos)
  · exact (RoundsTo.div hx hy hpos.ne').atLeast representable_zero (div_nonneg hx' hpos.le)

theorem AtMost.neg (h : AtMost x q) : AtLeast (-x) (-q) := by
  unfold AtLeast
  rw [isFinite_neg, value_neg, neg_le_neg_iff]
  exact h.imp_left IsInfinite.neg

theorem AtMost.sub (hx : AtMost x p) (hy : AtLeast y q) (hr : Representable r) (h : p - q ≤ r) :
    AtMost (x - y) r := by
  rw [sub_eq_add_neg]
  exact hx.add hy.neg hr (by linarith)

theorem AtLeast.sub (hx : AtLeast x p) (hy : AtMost y q) (hr : Representable r)
    (h : r ≤ p - q) : AtLeast (x - y) r := by
  rw [sub_eq_add_neg]
  exact hx.add hy.neg hr (by linarith)

theorem isNaN_sub (x : Float32) (hy : y.isNaN = true) : (x - y).isNaN = true := by
  have hnan : y.toModel.unpack = .notANumber := by
    change y.toModel.unpack.isNaN = true at hy
    generalize y.toModel.unpack = v at hy ⊢
    cases v <;> first | rfl | cases hy
  have hsub : x.toModel.unpack.sub .binary32 .notANumber = .notANumber := by
    cases x.toModel.unpack <;> rfl
  change (Float32.ofModel (.pack (x.toModel.unpack.sub .binary32 y.toModel.unpack))).isNaN = true
  rw [hnan, hsub]
  rfl

/-- A quotient by an infinite number is zero. -/
theorem RoundsTo.div_infinite {sign : Sign} (hx : x.isFinite = true) (hy : IsInfinite sign y) :
    RoundsTo 0 (x / y) := by
  change RoundsTo 0 (.ofModel (.pack (x.toModel.unpack.div .binary32 y.toModel.unpack)))
  rw [show y.toModel.unpack = .infinity sign from hy]
  obtain ⟨t, hx⟩ | ⟨t, m, e, hm, hx⟩ := zero_or_finite hx <;> rw [hx] <;> exact roundsTo_zero _

/-- What is one of the numbers, or is added to it, is no more than their sum. -/
theorem atLeast_total {xs : List Float32} (h : ∀ y ∈ xs, AtLeast y 0) (hx : x ∈ xs)
    (hq : Representable q) (hxq : AtLeast x q) : AtLeast (Scalar.total xs) q := by
  have hfold : ∀ (ys : List Float32) (z : Float32), (∀ y ∈ ys, AtLeast y 0) → AtLeast z 0 →
      AtLeast z q ∨ x ∈ ys → AtLeast (ys.foldl (· + ·) z) q := by
    intro ys
    induction ys with
    | nil => exact fun z _ _ hz => hz.resolve_right List.not_mem_nil
    | cons y ys ih =>
      intro z hys hz hor
      have hy := hys y List.mem_cons_self
      refine ih _ (fun u hu => hys u (List.mem_cons_of_mem _ hu)) (hz.add_nonneg hy) ?_
      rcases hor with hzq | hmem
      · exact .inl (hzq.add hy hq (by linarith))
      · rcases List.mem_cons.mp hmem with rfl | hmem
        · exact .inl (hz.add hxq hq (by linarith))
        · exact .inr hmem
  cases xs with
  | nil => exact absurd hx List.not_mem_nil
  | cons z ys =>
    refine hfold ys z (fun y hy => h y (List.mem_cons_of_mem _ hy)) (h z List.mem_cons_self) ?_
    rcases List.mem_cons.mp hx with rfl | hmem
    · exact .inl hxq
    · exact .inr hmem

/-- From zero up to `q`. -/
structure Within (q : ℚ) (x : Float32) : Prop where
  nonneg : AtLeast x 0
  atMost : AtMost x q

namespace Within

theorem isFinite (h : Within q x) : x.isFinite = true :=
  h.atMost.isFinite h.nonneg

theorem value_nonneg (h : Within q x) : 0 ≤ value x :=
  h.nonneg.le_value h.isFinite

theorem value_le (h : Within q x) : value x ≤ q :=
  h.atMost.value_le h.isFinite

theorem abs_value_le (h : Within q x) : |value x| ≤ q :=
  (abs_of_nonneg h.value_nonneg).trans_le h.value_le

theorem of_value (hx : x.isFinite = true) (h : 0 ≤ x) (hq : value x ≤ q) : Within q x :=
  ⟨atLeast_zero_iff.mpr h, .inr ⟨hx, hq⟩⟩

theorem mono (h : Within p x) (hpq : p ≤ q) : Within q x :=
  ⟨h.nonneg, h.atMost.mono hpq⟩

theorem self (hx : x.isFinite = true) (h : 0 ≤ x) : Within (value x) x :=
  of_value hx h le_rfl

theorem zero (hq : 0 ≤ q) : Within q 0 :=
  of_value rfl (by decide) hq

theorem isFinite_sub (hx : Within q x) (hy : Within q y) (hq : Representable q) :
    (x - y).isFinite = true :=
  (hx.atMost.sub hy.nonneg hq (sub_zero q).le).isFinite
    (hx.nonneg.sub hy.atMost hq.neg (zero_sub q).ge)

theorem add (hx : Within p x) (hy : Within q y) (hr : Representable r) (h : p + q ≤ r) :
    Within r (x + y) :=
  ⟨hx.nonneg.add hy.nonneg representable_zero (by norm_num), hx.atMost.add hy.atMost hr h⟩

/-- Next to 2ᵏ⁺²⁴ a number of at most 2ᵏ is half a unit in the last place. -/
theorem add_half {k : Nat} (hk : k ≤ 103) (hx : Within (2 ^ (k + 24)) x) (hy : Within (2 ^ k) y) :
    Within (2 ^ (k + 24)) (x + y) := by
  refine ⟨hx.nonneg.add hy.nonneg representable_zero (by norm_num), ?_⟩
  have hsum : value x + value y ≤ (2 ^ 24 + 1) * 2 ^ (k : ℤ) := by
    have hx' := hx.value_le
    have hy' := hy.value_le
    rw [pow_add] at hx'
    rw [zpow_natCast]
    linarith
  have := (RoundsTo.add hx.isFinite hy.isFinite).atMost_of_half (by omega) (by omega) hsum
  exact_mod_cast this

theorem total {k : Nat} (hk : k ≤ 103) {xs : List Float32} (h : ∀ x ∈ xs, Within (2 ^ k) x) :
    Within (2 ^ (k + 24)) (Scalar.total xs) := by
  have hpow : (2 : ℚ) ^ k ≤ 2 ^ (k + 24) := pow_le_pow_right₀ (by norm_num) (by omega)
  exact Scalar.total_of (zero (by positivity)) h (fun _ hx => hx.mono hpow)
    fun _ _ hx hy => hx.add_half hk hy

theorem mul (hx : Within p x) (hy : Within q y) (hr : Representable r) (h : p * q ≤ r) :
    Within r (x * y) := by
  have hround := RoundsTo.mul hx.isFinite hy.isFinite
  have hp := hx.value_nonneg.trans hx.value_le
  exact ⟨hround.atLeast representable_zero (mul_nonneg hx.value_nonneg hy.value_nonneg),
    hround.atMost hr ((mul_le_mul hx.value_le hy.value_le hy.value_nonneg hp).trans h)⟩

theorem div (hx : Within p x) (hy : AtLeast y q) (hq : 0 < q) (hr : Representable r)
    (hr' : 0 ≤ r) (h : p ≤ r * q) : Within r (x / y) := by
  rcases hy with hy | ⟨hy, hy'⟩
  · have hround := RoundsTo.div_infinite hx.isFinite hy
    exact ⟨hround.atLeast representable_zero le_rfl, hround.atMost hr hr'⟩
  · have hpos : 0 < value y := hq.trans_le hy'
    have hround := RoundsTo.div hx.isFinite hy hpos.ne'
    refine ⟨hround.atLeast representable_zero (div_nonneg hx.value_nonneg hpos.le),
      hround.atMost hr ?_⟩
    rw [div_le_iff₀ hpos]
    calc value x ≤ p := hx.value_le
      _ ≤ r * q := h
      _ ≤ r * value y := by gcongr

end Within

theorem ofNat_within {n b : Nat} (hb : b ≤ 127) (hn : n ≤ 2 ^ b) :
    Within (2 ^ b) (Float32.ofNat n) := by
  have hround := RoundsTo.ofNat n
  exact ⟨hround.atLeast representable_zero n.cast_nonneg,
    hround.atMost (representable_two_pow hb) (by exact_mod_cast hn)⟩

theorem isFinite_ofNat {n : Nat} (hn : n ≤ 2 ^ 64) : (Float32.ofNat n).isFinite = true :=
  (ofNat_within (by omega) hn).isFinite

end RetainedScene.Binary32
