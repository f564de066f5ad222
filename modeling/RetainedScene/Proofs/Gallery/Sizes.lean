import RetainedScene.Proofs.Gallery.Arranging
import RetainedScene.Proofs.Layout.Alike
import RetainedScene.Proofs.Number.Intervals

/-!
# Sizes of rows and columns

Gaps are paid for first and never shrink, so that the rows of tiles have what is left of the height.
They grow to 120 and shrink to nothing. What one of them gets is known but for a few roundings, and
only for the first one they add up.
-/

set_option autoImplicit false

namespace RetainedScene

open Binary32 Scalar

namespace Binary32

variable {x y : Float32}

theorem value_greater_zero (hx : x.isFinite = true) :
    (greater x 0).isFinite = true ∧ value (greater x 0) = max (value x) 0 := by
  rcases greater_cases x (b := 0) rfl with ⟨hpos, heq⟩ | heq
  · rw [heq, max_eq_left ((value_pos_iff hx).mpr hpos).le]
    exact ⟨hx, rfl⟩
  · have hle : x ≤ 0 := heq ▸ Constraint.le_greater_left (isNaN_of_isFinite hx) rfl
    rw [heq, max_eq_right (value_zero ▸ (value_le_iff hx rfl).mpr hle)]
    exact ⟨rfl, value_zero⟩

theorem greater_sub_eq_zero (hx : x.isFinite = true) (hy : y.isFinite = true)
    (h : value x ≤ value y) : greater (x - y) 0 = 0 := by
  rcases greater_cases (x - y) (b := 0) rfl with ⟨hpos, -⟩ | heq
  · have hmost := (RoundsTo.sub hx hy).atMost representable_zero (sub_nonpos.mpr h)
    exact absurd hpos (not_lt_of_le (hmost.le (.inr ⟨rfl, value_zero.ge⟩)))
  · exact heq

end Binary32

namespace Gallery

variable {height available amount first other : Float32} {n : Nat}

/-! ### Whole lengths -/

theorem margin_lies : Lies 16 16 margin :=
  .whole (n := 16) rfl (by norm_num) (by norm_num)

theorem titleHeight_lies : Lies 56 56 titleHeight :=
  .whole (n := 56) rfl (by norm_num) (by norm_num)

theorem dotSize_lies : Lies 14 14 dotSize :=
  .whole (n := 14) rfl (by norm_num) (by norm_num)

theorem half_lies : Lies (1 / 2) (1 / 2) (0.5 : Float32) :=
  .of_value rfl value_half

theorem two_lies : Lies 2 2 (2 : Float32) :=
  .whole (n := 2) rfl (by norm_num) (by norm_num)

theorem gap_lies : Lies 8 8 (margin * 0.5) :=
  margin_lies.mul_whole half_lies (n := 8) (by norm_num) (by norm_num) (by norm_num)

theorem inset_lies : Lies 16 16 (margin * 0.5 * 2) :=
  gap_lies.mul_whole two_lies (n := 16) (by norm_num) (by norm_num) (by norm_num)

theorem gaps_lies {q : ℚ} (hn : 8 * n ≤ 2 ^ 24) (hq : 8 * n = q) :
    Lies q q (margin * 0.5 * Float32.ofNat n) :=
  gap_lies.mul_whole (.whole rfl (by omega) rfl) (n := 8 * n) (by push_cast; rfl) hn
    (by push_cast; exact hq)

theorem columnGaps_lies : Lies 16 16 (margin * 0.5 * Float32.ofNat 2) :=
  gaps_lies (by norm_num) (by norm_num)

theorem noGap_lies : Lies 0 0 (margin * 0.5 * Float32.ofNat 0) :=
  gaps_lies (by norm_num) (by norm_num)

theorem twoMargins_lies : Lies 32 32 (2 * margin) :=
  .whole twoMargins_eq (by norm_num) (by norm_num)

theorem threeMargins_lies : Lies 48 48 (3 * margin) :=
  .mul_whole (.whole (n := 3) rfl (by norm_num) rfl) margin_lies (n := 48) (by norm_num)
    (by norm_num) (by norm_num)

theorem bodyTop_lies : Lies 72 72 bodyTop :=
  .whole bodyTop_eq (by norm_num) (by norm_num)

theorem titleExtent_lies : Lies 40 40 (titleHeight - margin) := by
  have hround := RoundsTo.sub titleHeight_lies.finite margin_lies.finite
  rw [titleHeight_lies.value_eq, margin_lies.value_eq] at hround
  exact .of_round_whole hround (n := 40) (by norm_num) (by norm_num) (by norm_num)

theorem halfDot_lies : Lies 7 7 (dotSize * 0.5) :=
  dotSize_lies.mul_whole half_lies (n := 7) (by norm_num) (by norm_num) (by norm_num)

theorem value_sixteen : value (16 : Float32) = 16 :=
  value_ofNat (n := 16) (by norm_num)

/-! ### The space for rows -/

theorem value_bodyHeight (h : Lies 320 10000 height) :
    (bodyHeight height).isFinite = true ∧ value (bodyHeight height) = value height - 88 := by
  have htop : value bodyTop = (72 : Nat) := bodyTop_lies.value_eq.trans (by norm_num)
  have hmargin : value margin = (16 : Nat) := margin_lies.value_eq.trans (by norm_num)
  obtain ⟨hfinite, hvalue⟩ := value_sub_nat h.finite (by linarith [h.le_high]) bodyTop_lies.finite
    htop (by push_cast; linarith [h.low_le])
  obtain ⟨hfinite', hvalue'⟩ := value_sub_nat hfinite (by rw [hvalue]; push_cast; linarith [h.le_high])
    margin_lies.finite hmargin (by rw [hvalue]; push_cast; linarith [h.low_le])
  obtain ⟨hbody, hbody'⟩ := value_greater_zero hfinite'
  refine ⟨hbody, ?_⟩
  change value (greater (height - bodyTop - margin) 0) = _
  rw [hbody', hvalue', hvalue]
  push_cast
  rw [max_eq_left (by linarith [h.low_le])]
  ring

/-- What so many gaps leave of the height for rows. -/
def rowSpace (height : Float32) (gaps : Nat) : Float32 :=
  greater (bodyHeight height - margin * 0.5 * Float32.ofNat gaps) 0

/-- So many gaps take up more than any window has. -/
theorem many_gaps (hmany : 2 ^ 20 ≤ n) (hn : n ≤ 2 ^ 64) :
    (margin * 0.5 * Float32.ofNat n).isFinite = true ∧
      2 ^ 20 ≤ value (margin * 0.5 * Float32.ofNat n) := by
  have hcount : Within (2 ^ 64) (Float32.ofNat n) := ofNat_within (by norm_num) hn
  have hgap : Within 8 (margin * 0.5) := ⟨gap_lies.atLeast.mono (by norm_num), gap_lies.atMost⟩
  have hfinite := (hgap.mul hcount (representable_two_pow (k := 67) (by norm_num))
    (by norm_num)).isFinite
  have hrepresentable : Representable (2 ^ 20) := representable_two_pow (by norm_num)
  have hmany' : 2 ^ 20 ≤ value (Float32.ofNat n) :=
    ((RoundsTo.ofNat n).atLeast hrepresentable (by exact_mod_cast hmany)).le_value hcount.isFinite
  have hround := RoundsTo.mul gap_lies.finite hcount.isFinite
  rw [gap_lies.value_eq] at hround
  exact ⟨hfinite, (hround.atLeast hrepresentable (by linarith)).le_value hfinite⟩

theorem value_rowSpace (h : Lies 320 10000 height) (hn : n ≤ 2 ^ 64) :
    (rowSpace height n).isFinite = true ∧
      value (rowSpace height n) = max (value height - 88 - 8 * n) 0 := by
  obtain ⟨hbody, hvalue⟩ := value_bodyHeight h
  have hnone (hfinite : (margin * 0.5 * Float32.ofNat n).isFinite = true)
      (hle : value (bodyHeight height) ≤ value (margin * 0.5 * Float32.ofNat n))
      (hn : value height - 88 ≤ 8 * n) : (rowSpace height n).isFinite = true ∧
        value (rowSpace height n) = max (value height - 88 - 8 * n) 0 := by
    rw [rowSpace, greater_sub_eq_zero hbody hfinite hle, max_eq_right (by linarith)]
    exact ⟨rfl, value_zero⟩
  rcases Nat.lt_or_ge (2 ^ 20) n with hmany | hfew
  · have hmany' : (2 : ℚ) ^ 20 ≤ n := by exact_mod_cast hmany.le
    obtain ⟨hfinite, hgaps⟩ := many_gaps hmany.le hn
    exact hnone hfinite (by linarith [h.le_high]) (by linarith [h.le_high])
  · have hgaps : Lies (8 * n) (8 * n) (margin * 0.5 * Float32.ofNat n) := gaps_lies (by omega) rfl
    rcases le_or_gt (8 * (n : ℚ)) (value (bodyHeight height)) with hfits | hover
    · obtain ⟨hleft, hleft'⟩ := value_sub_nat hbody (by linarith [h.le_high]) hgaps.finite
        (n := 8 * n) (by rw [hgaps.value_eq]; push_cast; rfl) (by push_cast; exact hfits)
      obtain ⟨hspace, hspace'⟩ := value_greater_zero hleft
      refine ⟨hspace, ?_⟩
      rw [rowSpace, hspace', hleft', hvalue]
      push_cast
      rfl
    · exact hnone hgaps.finite (hgaps.value_eq ▸ hover.le) (by linarith)

/-! ### Slack that is shared out -/

section

variable {slack : Float32} (hslack : slack.isFinite = true)

theorem tolerance_finite : (Scalar.tolerance : Float32).isFinite = true := by
  decide

theorem tolerance_between : 0 < value (Scalar.tolerance : Float32) ∧
    value (Scalar.tolerance : Float32) ≤ 1 / 2 := by
  refine ⟨(value_pos_iff tolerance_finite).mpr (by decide), ?_⟩
  rw [← value_half]
  exact (value_le_iff tolerance_finite rfl).mpr (by decide)

include hslack

theorem positive_of_surplus (h : tolerance < slack) : 0 < value slack :=
  tolerance_between.1.trans ((value_lt_iff tolerance_finite hslack).mpr h)

theorem negative_of_deficit (h : slack < -tolerance) : value slack < 0 := by
  have hlt := (value_lt_iff hslack (by decide)).mpr h
  rw [value_neg] at hlt
  linarith [tolerance_between.1]

theorem near_of_fits (h : ¬ slack < -tolerance) : -(1 / 2) ≤ value slack := by
  have hle := not_lt.mp (mt (value_lt_iff hslack (by decide)).mp h)
  rw [value_neg] at hle
  linarith [tolerance_between.2]

end

/-! ### Rows that shrink -/

def rowTrack : Track Float32 :=
  ⟨tileHeight, 64, 64⟩

theorem tileHeight_base? : tileHeight.base? = some 64 := by
  decide

theorem rowBase_lies : Lies 64 64 rowTrack.base :=
  .whole (n := 64) rfl (by norm_num) (by norm_num)

theorem rowSize_lies : Lies 64 64 rowTrack.size :=
  rowBase_lies

theorem value_rowBases (hn : n + 1 ≤ 2 ^ 18) :
    (total (List.replicate (n + 1) rowTrack.base)).isFinite = true ∧
      value (total (List.replicate (n + 1) rowTrack.base)) = 64 * (n + 1) := by
  obtain ⟨hfinite, hvalue⟩ := value_total_replicate (x := rowTrack.base) (m := 64) (n := n)
    rowBase_lies.finite (rowBase_lies.value_eq.trans (by norm_num)) (by omega)
  refine ⟨hfinite, hvalue.trans ?_⟩
  push_cast
  ring

/-- However many rows there are, together they are not so high that a product overflows. -/
theorem rowBases_within (n : Nat) :
    Within (2 ^ 30) (total (List.replicate (n + 1) rowTrack.base)) ∧
      64 ≤ value (total (List.replicate (n + 1) rowTrack.base)) := by
  have hbase : Within (2 ^ 6) rowTrack.base :=
    ⟨rowBase_lies.atLeast.mono (by norm_num), rowBase_lies.atMost.mono (by norm_num)⟩
  have hwithin : ∀ x ∈ List.replicate (n + 1) rowTrack.base, Within (2 ^ 6) x :=
    fun x hx => List.eq_of_mem_replicate hx ▸ hbase
  have htotal := Within.total (k := 6) (by norm_num) hwithin
  have hrepresentable : Representable 64 := by
    exact_mod_cast representable_nat (n := 64) (by norm_num)
  exact ⟨htotal, (atLeast_total (fun x hx => (hwithin x hx).nonneg) (by simp) hrepresentable
    rowBase_lies.atLeast).le_value htotal.isFinite⟩

theorem rowTrack_hasRoom (flow : Flow) : rowTrack.hasRoom flow = true := by
  cases flow <;> decide

theorem representable_sixteen : Representable 16 := by
  exact_mod_cast representable_nat (n := 16) (by norm_num)

/-- A product by 64 is exact, so that only the quotient is rounded. -/
theorem rowShare (hamount : Within (2 ^ 30) amount) {weight : Float32}
    (hweight : weight.isFinite = true) (hpos : 0 < value weight) :
    RoundsTo (value amount * 64 / value weight) (amount * rowTrack.base / weight) := by
  have hlimit : |2 ^ 6 * value amount| < 2 ^ 128 := by
    rw [abs_of_nonneg (mul_nonneg (by norm_num) hamount.value_nonneg)]
    linarith [hamount.value_le]
  have hrepresentable := (value_representable amount).two_pow_mul 6 hlimit
  have hproduct := RoundsTo.mul hamount.isFinite rowBase_lies.finite
  rw [rowBase_lies.value_eq, mul_comm, show (64 : ℚ) = 2 ^ 6 by norm_num] at hproduct
  obtain ⟨hfinite, hvalue⟩ := hproduct.exact hrepresentable
  have hquotient := RoundsTo.div hfinite hweight hpos.ne'
  rw [hvalue] at hquotient
  rwa [show value amount * 64 = 2 ^ 6 * value amount by ring]

theorem not_reaches_deficit {size : Float32} (h : rowTrack.reaches size .deficit = false) :
    ¬ size ≤ 0 :=
  of_decide_eq_false h

theorem reached_hasRoom {size : Float32} (hsize : size.isNaN = false)
    (h : rowTrack.reaches size .deficit = false) :
    ({ rowTrack with size } : Track Float32).hasRoom .deficit = true := by
  have hpos : 0 < size := lt_of_not_le hsize rfl (not_reaches_deficit h)
  have hbase : 0 < rowTrack.base := rowBase_lies.atLeast.pos (by norm_num)
  exact (Bool.and_eq_true ..).mpr ⟨decide_eq_true hbase, decide_eq_true hpos⟩

/-- Where the rows lack three quarters of what they would take up, none keeps more than a
    quarter. -/
theorem shrunk_atMost (h : SharesAlike .deficit rowTrack n amount first other)
    (hamount : Within (2 ^ 30) amount)
    (hlack : 48 * value (total (List.replicate (n + 1) rowTrack.base)) ≤ value amount * 64) :
    AtMost first 16 ∧ AtMost other 16 := by
  obtain ⟨hbases, hlarge⟩ := rowBases_within n
  have hpos : 0 < value (total (List.replicate (n + 1) rowTrack.base)) := by linarith
  have htarget : AtMost (rowTrack.target amount (rowTrack.sharedWeight .deficit (n + 1)) .deficit)
      16 := by
    have hshare : AtLeast (amount * rowTrack.base / rowTrack.sharedWeight .deficit (n + 1)) 48 :=
      (rowShare hamount hbases.isFinite hpos).atLeast
        (by exact_mod_cast representable_nat (n := 48) (by norm_num))
        ((le_div_iff₀ hpos).mpr hlack)
    exact rowSize_lies.atMost.sub hshare representable_sixteen (by norm_num)
  have hzero : AtMost 0 16 := .inr ⟨rfl, by rw [value_zero]; norm_num⟩
  cases h with
  | stays hnone =>
    rcases hnone with hnone | hnone
    · cases hnone.symm.trans (rowTrack_hasRoom .deficit)
    · exact absurd ((value_pos_iff hbases.isFinite).mp hpos) (not_lt_of_le hnone)
  | level hroom =>
    unfold Track.shared
    split
    · exact ⟨hzero, hzero⟩
    · exact ⟨htarget, htarget⟩
  | favoured hroom hsize hbefore hrest hrestPos =>
    rw [hsize] at hbefore ⊢
    have honward := (Track.withRest_between (reached_hasRoom htarget.isNaN hbefore) hrestPos).1
    exact ⟨htarget.of_le honward, htarget⟩

/-- What cramped rows lack is so much that no rounding matters. -/
theorem slack_cramped (ha : available.isFinite = true) (hnonneg : 0 ≤ value available)
    (hsmall : n + 1 ≤ 2 ^ 18 ∧ value available ≤ 16 * (n + 1) ∨ value available = 0) :
    Lies (-2 ^ 30) (-(3 / 4 * value (total (List.replicate (n + 1) rowTrack.base))))
      (available - total (List.replicate (n + 1) rowTrack.base)) := by
  obtain ⟨hbases, hlarge⟩ := rowBases_within n
  have hround := RoundsTo.sub ha hbases.isFinite
  rcases hsmall with ⟨hn, hle⟩ | hzero
  · have hvalue := (value_rowBases hn).2
    have hmost : value available - value (total (List.replicate (n + 1) rowTrack.base)) ≤
        -(48 * (n + 1 : Nat) : Nat) := by
      rw [hvalue]
      push_cast
      linarith
    have hleast := hround.atLeast (representable_two_pow (k := 30) (by norm_num)).neg
      (by linarith [hbases.value_le])
    refine .of_bounds hleast ((hround.atMost (representable_nat (by omega)).neg hmost).mono ?_)
    rw [hvalue]
    push_cast
    linarith
  · rw [hzero, zero_sub] at hround
    obtain ⟨hfinite, hvalue⟩ := hround.exact (value_representable _).neg
    exact ⟨hfinite, by linarith [hbases.value_le], by linarith⟩

theorem rows_cramped (h : SolvesAlike rowTrack n
      (available - total (List.replicate (n + 1) rowTrack.base)) first other)
    (ha : available.isFinite = true) (hnonneg : 0 ≤ value available)
    (hsmall : n + 1 ≤ 2 ^ 18 ∧ value available ≤ 16 * (n + 1) ∨ value available = 0) :
    AtMost first 16 ∧ AtMost other 16 := by
  have hlarge := (rowBases_within n).2
  have hlies := slack_cramped ha hnonneg hsmall
  have hlack := hlies.le_high
  cases h with
  | surplus hsurplus _ => linarith [positive_of_surplus hlies.finite hsurplus]
  | fits _ hdeficit => linarith [near_of_fits hlies.finite hdeficit]
  | deficit _ shares =>
    refine shrunk_atMost shares ⟨?_, ?_⟩ ?_
    · exact hlies.atMost.neg.mono (by linarith)
    · simpa using hlies.atLeast.neg
    · rw [value_neg]
      linarith

end Gallery

end RetainedScene
