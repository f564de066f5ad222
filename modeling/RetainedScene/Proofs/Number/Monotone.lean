import RetainedScene.Proofs.Number.Bounds

/-!
# Rounding keeps the order

A larger number never rounds to a smaller one, whatever binary exponents the two results have. So
a sum does not get smaller when its terms get larger, or when there are more of them.
-/

set_option autoImplicit false

namespace RetainedScene.Binary32

open Float.Model.UnpackedFloat

theorem NearestEven.mono {r s : ℚ} {c d : Nat} (hc : NearestEven r c) (hd : NearestEven s d)
    (h : r ≤ s) : c ≤ d := by
  by_contra hlt
  have hle : (d : ℚ) + 1 ≤ c := by exact_mod_cast not_le.mp hlt
  have hr := (abs_le.mp hc.near).1
  have hs := (abs_le.mp hd.near).2
  -- Both are then halfway between the two results, of which only one is even.
  have hceven : Even c := hc.tie (by rw [abs_of_neg] <;> linarith)
  have hdeven : Even d := hd.tie (by rw [abs_of_pos] <;> linarith)
  have hsucc : c = d + 1 := by
    have hq : (c : ℚ) = d + 1 := by linarith
    exact_mod_cast hq
  rw [hsucc] at hceven
  exact Nat.not_even_iff_odd.mpr hdeven.add_one hceven

theorem Nearest.mono {v w : ℚ} {c d : Nat} {t u : ℤ} (hv : Nearest v c t) (hw : Nearest w d u)
    (h : v ≤ w) : (c : ℚ) * 2 ^ t ≤ d * 2 ^ u := by
  have ht := hv.least
  have hu := hw.least
  rcases lt_trichotomy t u with hlt | rfl | hgt
  · have hd : (2 : ℚ) ^ 23 ≤ d := by
      exact_mod_cast hw.full_mantissa.resolve_left (by omega)
    calc (c : ℚ) * 2 ^ t ≤ 2 ^ 23 * 2 ^ u := scaled_le_full hv.mantissa_le hlt
      _ ≤ d * 2 ^ u := by gcongr
  · have hcd : (c : ℚ) ≤ d := by
      exact_mod_cast hv.mantissa.mono hw.mantissa (by gcongr)
    gcongr
  · have hfull : 2 ^ 23 * 2 ^ t ≤ v := hv.full.resolve_left (by omega)
    have hbelow : ((2 ^ 24 : Nat) : ℚ) * 2 ^ u ≤ 2 ^ 23 * 2 ^ t := scaled_le_full le_rfl hgt
    have hw' := hw.below
    push_cast at hbelow
    exact absurd h (not_le.mpr (by linarith))

variable {x y z w : Float32}

theorem abs_value_lt (x : Float32) : |value x| < 2 ^ 128 := by
  obtain ⟨-, -, -, -, -, hlimit⟩ := value_representable x
  exact hlimit

theorem Stores.le {s t : Sign} {p q : ℚ} (hx : Stores x s p) (hy : Stores y t q)
    (h : signed s p ≤ signed t q) : x ≤ y := by
  have hlimit := fun x => abs_lt.mp (abs_value_lt x)
  rcases hx with ⟨hx, hp⟩ | ⟨hx, hp⟩
  · rcases hy with ⟨hy, hq⟩ | ⟨hy, hq⟩
    · exact (value_le_iff hx hy).mp (by rwa [hp, hq])
    · cases t with
      | positive => exact hy.ge (isNaN_of_isFinite hx)
      | negative =>
        have hlow := (hlimit x).1
        rw [hp] at hlow
        change signed s p ≤ -q at h
        linarith
  · cases s with
    | negative =>
      refine hx.le ?_
      rcases hy with ⟨hy, -⟩ | ⟨hy, -⟩
      · exact isNaN_of_isFinite hy
      · exact hy.isNaN
    | positive =>
      change p ≤ signed t q at h
      rcases hy with ⟨hy, hq⟩ | ⟨hy, hq⟩
      · have hhigh := (hlimit y).2
        rw [hq] at hhigh
        linarith
      · cases t with
        | positive => exact hy.ge hx.isNaN
        | negative =>
          change p ≤ -q at h
          linarith

theorem RoundsTo.mono {v w : ℚ} (hx : RoundsTo v x) (hy : RoundsTo w y) (h : v ≤ w) : x ≤ y := by
  obtain ⟨s, p, c, t, rfl, hp, hx⟩ := hx
  obtain ⟨s', q, d, u, rfl, hq, hy⟩ := hy
  refine hx.le hy ?_
  have hc : (0 : ℚ) ≤ c * 2 ^ t := by positivity
  have hd : (0 : ℚ) ≤ d * 2 ^ u := by positivity
  cases s <;> cases s' <;> simp only [signed] at h ⊢
  · exact neg_le_neg (hq.mono hp (neg_le_neg_iff.mp h))
  · linarith
  -- What is not negative and at most something not positive is zero.
  · have hpos := hp.nonneg
    have hneg := hq.nonneg
    have hc' := hp.le (n := 0) (s := -149) (by norm_num) le_rfl (by simp; linarith)
    have hd' := hq.le (n := 0) (s := -149) (by norm_num) le_rfl (by simp; linarith)
    simp only [Nat.cast_zero, zero_mul] at hc' hd'
    linarith
  · exact hp.mono hq h

theorem RoundsTo.isNaN {v : ℚ} (h : RoundsTo v x) : x.isNaN = false :=
  (le_iff_rank.mp (h.mono h le_rfl)).1

theorem ofNat_mono {m n : Nat} (h : m ≤ n) : Float32.ofNat m ≤ Float32.ofNat n :=
  (RoundsTo.ofNat m).mono (RoundsTo.ofNat n) (by exact_mod_cast h)

theorem ofNat_nonneg (n : Nat) : 0 ≤ Float32.ofNat n :=
  atLeast_zero_iff.mp ((RoundsTo.ofNat n).atLeast representable_zero n.cast_nonneg)

theorem ofNat_pos {n : Nat} (h : 0 < n) : 0 < Float32.ofNat n := by
  refine lt_of_not_le (RoundsTo.ofNat n).isNaN rfl fun hle => ?_
  have hone : (1 : Float32) ≤ Float32.ofNat n := ofNat_mono h
  exact absurd (le_trans hone hle) (by decide)

theorem mul_mono (hx : x.isFinite = true) (hy : y.isFinite = true) (hz : z.isFinite = true)
    (hnonneg : 0 ≤ value z) (h : x ≤ y) : x * z ≤ y * z :=
  (RoundsTo.mul hx hz).mono (RoundsTo.mul hy hz)
    (mul_le_mul_of_nonneg_right ((value_le_iff hx hy).mpr h) hnonneg)

theorem sub_mono (hx : x.isFinite = true) (hy : y.isFinite = true) (hz : z.isFinite = true)
    (h : x ≤ y) : x - z ≤ y - z :=
  (RoundsTo.sub hx hz).mono (RoundsTo.sub hy hz)
    (by linarith [(value_le_iff hx hy).mpr h])

theorem div_mono (hx : x.isFinite = true) (hy : y.isFinite = true) (hz : z.isFinite = true)
    (hpos : 0 < value z) (h : x ≤ y) : x / z ≤ y / z :=
  (RoundsTo.div hx hz hpos.ne').mono (RoundsTo.div hy hz hpos.ne')
    (div_le_div_of_nonneg_right ((value_le_iff hx hy).mpr h) hpos.le)

/-- Numbers that are not minus infinity have a sum. -/
theorem isNaN_add {p q : ℚ} (hx : AtLeast x p) (hy : AtLeast y q) : (x + y).isNaN = false := by
  rcases hx with hx | ⟨hx, -⟩
  · exact (hx.add (hy.imp_right And.left)).isNaN
  rcases hy with hy | ⟨hy, -⟩
  · exact (hy.finite_add hx).isNaN
  · exact (RoundsTo.add hx hy).isNaN

theorem add_le_add_of_atLeast {p q : ℚ} (hx : AtLeast x p) (hy : AtLeast y q) (hxz : x ≤ z)
    (hyw : y ≤ w) : x + y ≤ z + w := by
  have hsum := isNaN_add hx hy
  rcases hx.of_le hxz with hz | ⟨hz, -⟩
  · exact (hz.add ((hy.of_le hyw).imp_right And.left)).ge hsum
  rcases hy.of_le hyw with hw | ⟨hw, -⟩
  · exact (hw.finite_add hz).ge hsum
  have hx' := ((atMost_value hz).of_le hxz).isFinite hx
  have hy' := ((atMost_value hw).of_le hyw).isFinite hy
  refine (RoundsTo.add hx' hy').mono (RoundsTo.add hz hw) ?_
  exact add_le_add ((value_le_iff hx' hz).mpr hxz) ((value_le_iff hy' hw).mpr hyw)

/-- Of an infinite number it is enough to know that the sum is one. -/
theorem le_add_of_nonneg (hx : x.isNaN = false) (hy : AtLeast y 0) (hsum : (x + y).isNaN = false) :
    x ≤ x + y := by
  rcases finite_or hx with hx | ⟨_ | _, hx⟩
  · exact (atMost_value hx).le ((atLeast_value hx).add hy (value_representable x) (by simp))
  · exact hx.le hsum
  · exact (hx.add (hy.imp_right And.left)).ge hx.isNaN

theorem sub_le_of_nonneg (hx : x.isNaN = false) (hy : AtLeast y 0) (hdiff : (x - y).isNaN = false) :
    x - y ≤ x := by
  rcases finite_or hx with hx | ⟨_ | _, hx⟩
  · exact ((atMost_value hx).sub hy (value_representable x) (by simp)).le (atLeast_value hx)
  · rw [sub_eq_add_neg]
    exact (hx.add (hy.imp IsInfinite.neg fun h => isFinite_neg.trans h.1)).le hx.isNaN
  · exact hx.ge hdiff

theorem atLeast_zero : AtLeast 0 0 :=
  atLeast_zero_iff.mpr (by decide)

theorem total_nonneg {xs : List Float32} (h : ∀ x ∈ xs, AtLeast x 0) :
    AtLeast (Scalar.total xs) 0 :=
  Scalar.total_of (P := (AtLeast · 0)) atLeast_zero h (fun _ hx => hx)
    fun _ _ hx hy => hx.add_nonneg hy

theorem le_nonneg_add (hz : AtLeast z 0) (hx : AtLeast x 0) : x ≤ z + x := by
  rcases hx with hx | ⟨hx, -⟩
  · rcases hz with hz | ⟨hz, -⟩
    · exact (hz.add (.inl hx)).ge hx.isNaN
    · exact (IsInfinite.finite_add hz hx).ge hx.isNaN
  · exact (atMost_value hx).le
      (hz.add (atLeast_value hx) (value_representable x) (zero_add _).ge)

theorem foldl_le_foldl {xs ys : List Float32} (h : ys.Sublist xs) (hxs : ∀ x ∈ xs, AtLeast x 0)
    (hz : AtLeast z 0) (hzw : z ≤ w) : ys.foldl (· + ·) z ≤ xs.foldl (· + ·) w := by
  induction h generalizing z w with
  | slnil => exact hzw
  | cons x h ih =>
    have hx := hxs x List.mem_cons_self
    have hw := hz.of_le hzw
    have hsum := (hw.add_nonneg hx).isNaN
    exact ih (fun y hy => hxs y (List.mem_cons_of_mem _ hy)) hz
      (le_trans hzw (le_add_of_nonneg hw.isNaN hx hsum))
  | cons_cons x h ih =>
    have hx := hxs x List.mem_cons_self
    exact ih (fun y hy => hxs y (List.mem_cons_of_mem _ hy)) (hz.add_nonneg hx)
      (add_le_add_of_atLeast hz hx hzw (le_refl hx.isNaN))

/-- Leaving out terms does not make a sum larger. -/
theorem total_le_of_sublist {xs ys : List Float32} (h : ys.Sublist xs)
    (hxs : ∀ x ∈ xs, AtLeast x 0) : Scalar.total ys ≤ Scalar.total xs := by
  cases ys with
  | nil => exact atLeast_zero_iff.mp (total_nonneg hxs)
  | cons y ys =>
    cases h with
    | @cons _ xs x h =>
      have hy := hxs y (List.mem_cons_of_mem _ (h.subset List.mem_cons_self))
      have hxs' := fun z hz => hxs z (List.mem_cons_of_mem x hz)
      have hx := atLeast_zero_iff.mp (hxs x List.mem_cons_self)
      have hys := fun z hz => hxs' z (h.subset (List.mem_cons_of_mem y hz))
      have hsum : (y :: ys).foldl (· + ·) 0 ≤ xs.foldl (· + ·) x :=
        foldl_le_foldl h hxs' atLeast_zero hx
      exact le_trans (foldl_le_foldl (List.Sublist.refl ys) hys hy (le_nonneg_add atLeast_zero hy)) hsum
    | @cons_cons _ xs x h =>
      have hy := hxs y List.mem_cons_self
      exact foldl_le_foldl h (fun z hz => hxs z (List.mem_cons_of_mem _ hz)) hy (le_refl hy.isNaN)

end RetainedScene.Binary32
