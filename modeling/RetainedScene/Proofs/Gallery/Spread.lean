import RetainedScene.Proofs.Gallery.Sizes

/-!
# Rows and columns fill their space

Together rows or columns do not get past the space that they have by more than a pixel. The first one
may be given what rounding left over, which is little, and when rows shrink it is taken from it.
-/

set_option autoImplicit false

namespace RetainedScene

open Binary32 Scalar

namespace Gallery

variable {available amount first other : Float32} {n : Nat} {a : ℚ}

/-- All but the first of `n + 1` tracks have an equal part of the space, and the first is not more
    than twice as large. -/
def Spread (low : ℚ) (n : Nat) (space : ℚ) (first other : Float32) : Prop :=
  ∃ part, (n + 1) * part ≤ space + 1 ∧ Lies low (2 * part) first ∧ Lies low part other

/-! ### Rows that shrink -/

theorem representable_sixtyfour : Representable 64 := by
  exact_mod_cast representable_nat (n := 64) (by norm_num)

theorem representable_rows (hn : n + 1 ≤ 512) : Representable (64 * (n + 1)) := by
  exact_mod_cast representable_nat (n := 64 * (n + 1)) (by omega)

section

variable {N : ℚ} (hN : N = n + 1) (hn : n + 1 ≤ 512) (hamount : Within (64 * N) amount)
  (hlack : Lies (64 * N - a - N / 2 ^ 18) (64 * N - a + N / 2 ^ 18) amount)

include hN in
theorem count_pos : 1 ≤ N := by
  rw [hN]
  linarith [(n.cast_nonneg : (0 : ℚ) ≤ n)]

include hN hn in
theorem count_le : N ≤ 512 := by
  rw [hN]
  exact_mod_cast hn

include hN hn hamount hlack

theorem shrunk_share :
    Within 64 (amount * rowTrack.base / rowTrack.sharedWeight .deficit (n + 1)) ∧
      Lies (64 - a / N - 2 / 2 ^ 18) (64 - a / N + 2 / 2 ^ 18)
        (amount * rowTrack.base / rowTrack.sharedWeight .deficit (n + 1)) := by
  have hpos : 0 < N := one_pos.trans_le (count_pos hN)
  obtain ⟨hbases, hvalue⟩ := value_rowBases (n := n) (by omega)
  have hround := rowShare (hamount.mono (by linarith [count_le hN hn])) hbases
    (by rw [hvalue]; positivity)
  have hshare : value amount * 64 / (64 * N) = value amount / N := by
    field_simp
  rw [hvalue, ← hN, hshare] at hround
  have hnonneg : 0 ≤ value amount / N := div_nonneg hamount.value_nonneg hpos.le
  have hmost : value amount / N ≤ 64 := (div_le_iff₀ hpos).mpr hamount.value_le
  refine ⟨⟨hround.atLeast representable_zero hnonneg,
    hround.atMost representable_sixtyfour hmost⟩, ?_⟩
  have hlow : 64 - a / N - 1 / 2 ^ 18 ≤ value amount / N := by
    rw [le_div_iff₀ hpos]
    refine le_of_eq_of_le ?_ hlack.low_le
    field_simp
  have hhigh : value amount / N ≤ 64 - a / N + 1 / 2 ^ 18 := by
    rw [div_le_iff₀ hpos]
    refine hlack.le_high.trans_eq ?_
    field_simp
  exact (Lies.of_error hround representable_sixtyfour (by linarith) hmost (by norm_num)).mono
    (by linarith) (by linarith)

/-- A row gets its part of the space but for three roundings. -/
theorem shrunk_target :
    AtMost (rowTrack.target amount (rowTrack.sharedWeight .deficit (n + 1)) .deficit) 64 ∧
      Lies (a / N - 3 / 2 ^ 18) (a / N + 3 / 2 ^ 18)
        (rowTrack.target amount (rowTrack.sharedWeight .deficit (n + 1)) .deficit) := by
  obtain ⟨hwithin, hshare⟩ := shrunk_share hN hn hamount hlack
  have hround := RoundsTo.sub rowSize_lies.finite hwithin.isFinite
  rw [rowSize_lies.value_eq] at hround
  have hnonneg := hwithin.value_nonneg
  refine ⟨hround.atMost representable_sixtyfour (by linarith), ?_⟩
  exact (Lies.of_error hround representable_sixtyfour (by linarith [hwithin.value_le])
    (by linarith) (by norm_num)).mono (by linarith [hshare.le_high]) (by linarith [hshare.low_le])

theorem shrunk_moved (hroom : 16 * N ≤ a) {size : Float32}
    (hsize : size = rowTrack.target amount (rowTrack.sharedWeight .deficit (n + 1)) .deficit) :
    AtLeast (rowTrack.moved size .deficit) 0 ∧
      Lies (64 - a / N - 4 / 2 ^ 18) (64 - a / N + 4 / 2 ^ 18)
        (rowTrack.moved size .deficit) := by
  obtain ⟨hmost, htarget⟩ := shrunk_target hN hn hamount hlack
  rw [← hsize] at hmost htarget
  have hlow : 16 ≤ a / N := (le_div_iff₀ (one_pos.trans_le (count_pos hN))).mpr hroom
  have hhigh := hmost.value_le htarget.finite
  have hround := RoundsTo.sub rowSize_lies.finite htarget.finite
  rw [rowSize_lies.value_eq] at hround
  refine ⟨hround.atLeast representable_zero (by linarith), ?_⟩
  exact (Lies.of_error hround representable_sixtyfour (by linarith) (by linarith [htarget.low_le])
    (by norm_num)).mono (by linarith [htarget.le_high]) (by linarith [htarget.low_le])

/-- What is left over when every row has given its part of what is lacking. -/
theorem shrunk_rest (hroom : 16 * N ≤ a) {size : Float32}
    (hsize : size = rowTrack.target amount (rowTrack.sharedWeight .deficit (n + 1)) .deficit) :
    ((· - rowTrack.moved size .deficit)^[n + 1] amount).isFinite = true ∧
      value ((· - rowTrack.moved size .deficit)^[n + 1] amount) ≤ (N ^ 2 + 5 * N) / 2 ^ 18 := by
  have hone := count_pos hN
  have hmany := count_le hN hn
  have hscale : N * (a / N) = a := by field_simp
  obtain ⟨hnonneg, hmoved⟩ := shrunk_moved hN hn hamount hlack hroom hsize
  have hnonneg := hnonneg.le_value hmoved.finite
  have hlow := mul_le_mul_of_nonneg_left hmoved.low_le (zero_le_one.trans hone)
  have hhigh := mul_le_mul_of_nonneg_left hmoved.le_high (zero_le_one.trans hone)
  rw [mul_sub, mul_sub, hscale] at hlow
  rw [mul_add, mul_sub, hscale] at hhigh
  have herrors : N * (64 * N / 2 ^ 24) ≤ 512 * (64 * N / 2 ^ 24) := by gcongr
  have hcount : ((n + 1 : Nat) : ℚ) = N := by rw [hN]; push_cast; rfl
  obtain ⟨hfinite, hrest⟩ := iterate_sub_le hamount.isFinite hmoved.finite
    (hN ▸ representable_rows hn) (by linarith) (n := n + 1) hamount.value_nonneg hnonneg
    (show _ ≤ 50 * N by linarith [hlack.le_high]) (by rw [hcount]; linarith)
    (by rw [hcount]; linarith)
  refine ⟨hfinite, ?_⟩
  rw [hcount, show N * (64 * N / 2 ^ 24) = N ^ 2 / 2 ^ 18 by ring] at hrest
  rw [add_div]
  linarith [hlack.le_high]

theorem shrunk_first {low : ℚ} (hroom : 16 * N ≤ a) (hrepresentable : Representable low)
    (hlow : low = 0 ∨ low + (N ^ 2 + 5 * N + 3) / 2 ^ 18 ≤ a / N) {size rest : Float32}
    (hsize : size = rowTrack.target amount (rowTrack.sharedWeight .deficit (n + 1)) .deficit)
    (hbefore : rowTrack.reaches size .deficit = false)
    (hrest : rest = (· - rowTrack.moved size .deficit)^[n + 1] amount) (hpos : 0 < rest) :
    Lies low (a / N + 3 / 2 ^ 18) (Track.withRest { rowTrack with size } rest .deficit) := by
  obtain ⟨hrestFinite, hrestSmall⟩ := shrunk_rest hN hn hamount hlack hroom hsize
  rw [← hrest] at hrestFinite hrestSmall
  have htarget := (shrunk_target hN hn hamount hlack).2
  rw [← hsize] at htarget
  obtain ⟨honward, hnonneg⟩ :=
    Track.withRest_between (reached_hasRoom (isNaN_of_isFinite htarget.finite) hbefore) hpos
  have hleast : AtLeast (Track.withRest { rowTrack with size } rest .deficit) low := by
    rcases hlow with rfl | hlow
    · exact atLeast_zero_iff.mpr hnonneg
    · have hleft := (RoundsTo.sub htarget.finite hrestFinite).atLeast hrepresentable (by
        have hsplit : (N ^ 2 + 5 * N + 3) / 2 ^ 18 = (N ^ 2 + 5 * N) / 2 ^ 18 + 3 / 2 ^ 18 := by ring
        linarith [htarget.low_le])
      have hzero : rowTrack.constraint.min.isNaN = false := by decide
      exact hleft.of_le (Constraint.le_greater_left hleft.isNaN hzero)
  exact .of_bounds hleast (htarget.atMost.of_le honward)

/-- Where rows keep a quarter of their height, what the first one gives up for rounding is little. -/
theorem shrunk_spread {low : ℚ} (hroom : 16 * N ≤ a) (hrepresentable : Representable low)
    (hlow : low = 0 ∨ low + (N ^ 2 + 5 * N + 3) / 2 ^ 18 ≤ a / N)
    (h : SharesAlike .deficit rowTrack n amount first other) : Spread low n a first other := by
  have hpos : 0 < N := one_pos.trans_le (count_pos hN)
  have hpart : 16 ≤ a / N := (le_div_iff₀ hpos).mpr hroom
  have hspace : N * (a / N + 3 / 2 ^ 18) ≤ a + 1 := by
    rw [mul_add, mul_div_cancel₀ a hpos.ne']
    linarith [count_le hN hn]
  have hlow' : low ≤ a / N - 3 / 2 ^ 18 := by
    rcases hlow with rfl | hlow
    · linarith
    · have herror : (N ^ 2 + 5 * N + 3) / 2 ^ 18 = (N ^ 2 + 5 * N) / 2 ^ 18 + 3 / 2 ^ 18 := by ring
      have : 0 ≤ (N ^ 2 + 5 * N) / 2 ^ 18 := by positivity
      linarith
  obtain ⟨hmost, htarget⟩ := shrunk_target hN hn hamount hlack
  have hlies := htarget.mono hlow' le_rfl
  have hunreached : rowTrack.reaches
      (rowTrack.target amount (rowTrack.sharedWeight .deficit (n + 1)) .deficit) .deficit = false :=
    decide_eq_false fun hle => not_lt_of_le hle
      ((value_pos_iff htarget.finite).mp (by linarith [htarget.low_le]))
  have hshared : rowTrack.shared amount (rowTrack.sharedWeight .deficit (n + 1)) .deficit =
      rowTrack.target amount (rowTrack.sharedWeight .deficit (n + 1)) .deficit :=
    if_neg (by rw [hunreached]; exact Bool.false_ne_true)
  refine ⟨a / N + 3 / 2 ^ 18, by rwa [← hN], ?_⟩
  cases h with
  | stays hnone =>
    rcases hnone with hnone | hnone
    · cases hnone.symm.trans (rowTrack_hasRoom .deficit)
    · obtain ⟨hbases, hvalue⟩ := value_rowBases (n := n) (by omega)
      have hweight : 0 < value (total (List.replicate (n + 1) rowTrack.base)) := by
        rw [hvalue]
        positivity
      exact absurd ((value_pos_iff hbases).mp hweight) (not_lt_of_le hnone)
  | level _ =>
    rw [hshared]
    exact ⟨hlies.mono le_rfl (by linarith), hlies⟩
  | favoured _ hsize hbefore hrest hrestPos =>
    rw [hsize] at hbefore hrest ⊢
    exact ⟨(shrunk_first hN hn hamount hlack hroom hrepresentable hlow rfl hbefore hrest
      hrestPos).mono le_rfl (by linarith), hlies⟩

end

/-! ### Tracks that grow -/

theorem grown_first {t : Track Float32} {size rest : Float32} {low high : ℚ}
    (hsize : Lies low high size)
    (hbound : AtLeast t.constraint.max low) (hbefore : t.reaches size .surplus = false)
    (hpos : 0 < rest) (hrest : AtMost rest 1) (hlow : 0 ≤ low) (hhigh : high ≤ 10001) :
    Lies low (high + 2) (Track.withRest { t with size } rest .surplus) := by
  have hmax : t.constraint.max.isNaN = false := hbound.isNaN
  have hlt : size < t.constraint.max := by
    refine lt_of_not_le hmax (isNaN_of_isFinite hsize.finite) fun hle => ?_
    exact of_decide_eq_false hbefore hle
  have hrestLies : Lies 0 1 rest := .of_bounds (atLeast_zero_iff.mpr (le_of_lt hpos)) hrest
  have hsum := hsize.add hrestLies (by linarith) (by linarith)
  have hnumber := isNaN_of_isFinite hsum.finite
  refine .of_bounds (Constraint.lesser_of (P := (AtLeast · low)) ?_ hbound) ?_
  · exact hsize.atLeast.of_le (le_add_of_nonneg (isNaN_of_isFinite hsize.finite)
      (atLeast_zero_iff.mpr (le_of_lt hpos)) hnumber)
  · exact (hsum.atMost.of_le (Constraint.lesser_le hnumber hmax).1).mono (by linarith)

section

variable {t : Track Float32} {N low base : ℚ} (hN : N = n + 1) (hn : n + 1 ≤ 200)
  (hstretch : t.constraint.stretch = 1) (hbase : Lies base base t.size) (hnonneg : 0 ≤ base)
  (hspare : base * N ≤ a) (hmost : a ≤ 10000) (hamount : AtLeast amount 0)
  (hlies : Lies (a - base * N - 1 / 2 ^ 10) (a - base * N + 1 / 2 ^ 10) amount)

include hN hn hstretch in
theorem value_stretches : (t.sharedWeight .surplus (n + 1)).isFinite = true ∧
    value (t.sharedWeight .surplus (n + 1)) = N := by
  have hone : value (1 : Float32) = (1 : Nat) := value_one.trans Nat.cast_one.symm
  obtain ⟨hfinite, hvalue⟩ := value_total_replicate (x := (1 : Float32)) (n := n) rfl hone
    (by omega)
  have hweight : t.sharedWeight .surplus (n + 1) = total (List.replicate (n + 1) 1) :=
    congrArg (fun weight => total (List.replicate (n + 1) weight)) hstretch
  rw [hweight]
  refine ⟨hfinite, hvalue.trans ?_⟩
  rw [hN, Nat.cast_one, mul_one]

include hN hn hstretch hbase hnonneg hspare hmost hamount hlies

theorem grown_target :
    AtLeast (t.target amount (t.sharedWeight .surplus (n + 1)) .surplus) (value t.size) ∧
      Lies (a / N - 3 / 2 ^ 10) (a / N + 3 / 2 ^ 10)
        (t.target amount (t.sharedWeight .surplus (n + 1)) .surplus) := by
  have hone := count_pos hN
  have hpos : 0 < N := one_pos.trans_le hone
  obtain ⟨hweight, hvalue⟩ := value_stretches hN hn hstretch
  have hproduct := RoundsTo.mul hlies.finite (y := 1) rfl
  rw [show value (1 : Float32) = 1 from value_one, mul_one] at hproduct
  obtain ⟨hfinite, hproduct⟩ := hproduct.exact (value_representable amount)
  have hquotient := RoundsTo.div hfinite hweight (by rw [hvalue]; exact hpos.ne')
  rw [hproduct, hvalue] at hquotient
  have hpart : base ≤ a / N := (le_div_iff₀ hpos).mpr hspare
  have hwhole : a / N ≤ a := div_le_self ((mul_nonneg hnonneg hpos.le).trans hspare) hone
  have hunit : 1 / 2 ^ 10 / N ≤ 1 / 2 ^ 10 := div_le_self (by norm_num) hone
  have hshareLow : a / N - base - 1 / 2 ^ 10 ≤ value amount / N := by
    have hscaled := div_le_div_of_nonneg_right hlies.low_le hpos.le
    rw [sub_div, sub_div, mul_div_cancel_right₀ base hpos.ne'] at hscaled
    linarith
  have hshareHigh : value amount / N ≤ a / N - base + 1 / 2 ^ 10 := by
    have hscaled := div_le_div_of_nonneg_right hlies.le_high hpos.le
    rw [add_div, sub_div, mul_div_cancel_right₀ base hpos.ne'] at hscaled
    linarith
  have hshare := Lies.of_round hquotient hshareLow hshareHigh (by linarith) (by linarith)
  have hshareNonneg := hquotient.atLeast representable_zero
    (div_nonneg (hamount.le_value hlies.finite) hpos.le)
  have hsum := hbase.add hshare (by linarith) (by linarith)
  have htarget : t.target amount (t.sharedWeight .surplus (n + 1)) .surplus =
      t.size + amount * 1 / t.sharedWeight .surplus (n + 1) :=
    congrArg (fun stretch => t.size + amount * stretch / t.sharedWeight .surplus (n + 1)) hstretch
  rw [htarget]
  exact ⟨(atLeast_value hbase.finite).add hshareNonneg (value_representable _) (by simp),
    hsum.mono (by linarith) (by linarith)⟩

theorem grown_rest {size : Float32}
    (hsize : size = t.target amount (t.sharedWeight .surplus (n + 1)) .surplus) :
    AtMost ((· - t.moved size .surplus)^[n + 1] amount) 1 := by
  have hone := count_pos hN
  have hpos : 0 < N := one_pos.trans_le hone
  have hmany : N ≤ 200 := by rw [hN]; exact_mod_cast hn
  have hscale : N * (a / N) = a := by field_simp
  have hpart : base ≤ a / N := (le_div_iff₀ hpos).mpr hspare
  have hwhole : a / N ≤ a := div_le_self ((mul_nonneg hnonneg hpos.le).trans hspare) hone
  obtain ⟨hleast, htarget⟩ :=
    grown_target hN hn hstretch hbase hnonneg hspare hmost hamount hlies
  rw [← hsize] at hleast htarget
  have hmoved : Lies (a / N - base - 4 / 2 ^ 10) (a / N - base + 4 / 2 ^ 10)
      (t.moved size .surplus) :=
    (htarget.sub hbase (by linarith) (by linarith)).mono (by linarith) (by linarith)
  have hmoved0 : 0 ≤ value (t.moved size .surplus) := by
    have hmove := (RoundsTo.sub htarget.finite hbase.finite).atLeast representable_zero
      (sub_nonneg.mpr (hleast.le_value htarget.finite))
    exact hmove.le_value hmoved.finite
  have hlow := mul_le_mul_of_nonneg_left hmoved.low_le hpos.le
  have hhigh := mul_le_mul_of_nonneg_left hmoved.le_high hpos.le
  rw [mul_sub, mul_sub, hscale] at hlow
  rw [mul_add, mul_sub, hscale] at hhigh
  have hnonneg' := mul_nonneg hnonneg hpos.le
  have hcount : ((n + 1 : Nat) : ℚ) = N := by rw [hN]; push_cast; rfl
  obtain ⟨hfinite, hrest⟩ := iterate_sub_le hlies.finite hmoved.finite
    (representable_two_pow (k := 14) (by norm_num)) (by norm_num) (n := n + 1)
    (hamount.le_value hlies.finite) hmoved0 (show _ ≤ 10001 by linarith [hlies.le_high])
    (by rw [hcount]; linarith) (by rw [hcount]; linarith)
  rw [hcount] at hrest
  exact .inr ⟨hfinite, by linarith [hlies.le_high]⟩

/-- A track that grows is not given more than an equal part, and the first one a pixel more. -/
theorem grown_spread (hlow : low ≤ base ∨ low + 3 / 2 ^ 10 ≤ a / N)
    (hlow' : 0 ≤ low) (hbound : AtLeast t.constraint.max low) (hroom : t.hasRoom .surplus = true) (hpixel : 2 * N ≤ a)
    (h : SharesAlike .surplus t n amount first other) : Spread low n a first other := by
  have hone := count_pos hN
  have hpos : 0 < N := one_pos.trans_le hone
  have hpart : 2 ≤ a / N := (le_div_iff₀ hpos).mpr hpixel
  have hwhole : a / N ≤ a := div_le_self (by linarith) hone
  have hspace : N * (a / N + 4 / 2 ^ 10) ≤ a + 1 := by
    rw [mul_add, mul_div_cancel₀ a hpos.ne']
    have hmany : N ≤ 200 := by rw [hN]; exact_mod_cast hn
    linarith
  obtain ⟨hleast, htarget⟩ :=
    grown_target hN hn hstretch hbase hnonneg hspare hmost hamount hlies
  have hsize : Lies low (a / N + 3 / 2 ^ 10)
      (t.target amount (t.sharedWeight .surplus (n + 1)) .surplus) := by
    refine ⟨htarget.finite, ?_, htarget.le_high⟩
    rcases hlow with hlow | hlow
    · exact hlow.trans (hbase.low_le.trans (hleast.le_value htarget.finite))
    · linarith [htarget.low_le]
  have hshared : Lies low (a / N + 3 / 2 ^ 10)
      (t.shared amount (t.sharedWeight .surplus (n + 1)) .surplus) := by
    unfold Track.shared
    split
    case isTrue hreaches =>
      exact .of_bounds hbound (hsize.atMost.of_le (of_decide_eq_true hreaches))
    case isFalse => exact hsize
  refine ⟨a / N + 4 / 2 ^ 10, by rwa [← hN], ?_⟩
  cases h with
  | stays hnone =>
    rcases hnone with hnone | hnone
    · cases hnone.symm.trans hroom
    · obtain ⟨hfinite, hvalue⟩ := value_stretches hN hn hstretch
      exact absurd ((value_pos_iff hfinite).mp (hvalue ▸ hpos)) (not_lt_of_le hnone)
  | level _ =>
    exact ⟨hshared.mono le_rfl (by linarith), hshared.mono le_rfl (by linarith)⟩
  | favoured _ hsized hbefore hrest hrestPos =>
    have hrestSmall := hrest ▸
      grown_rest hN hn hstretch hbase hnonneg hspare hmost hamount hlies hsized
    rw [← hsized] at hsize
    have hfirst := grown_first hsize hbound hbefore hrestPos hrestSmall hlow' (by linarith)
    exact ⟨hfirst.mono le_rfl (by linarith), hsize.mono le_rfl (by linarith)⟩

end

/-! ### Rows and columns -/

/-- Rows of which each has at least 16 pixels. -/
theorem rows_spread {N low : ℚ} (hN : N = n + 1) (hn : n + 1 ≤ 512)
    (havailable : available.isFinite = true) (hvalue : value available = a) (hmost : a ≤ 10000)
    (hroom : 16 * N ≤ a) (hrepresentable : Representable low) (hnonneg : 0 ≤ low) (hlow : low ≤ 64)
    (hlow' : low = 0 ∨ low + (N ^ 2 + 5 * N + 3) / 2 ^ 18 ≤ a / N)
    (h : SolvesAlike rowTrack n (available - total (List.replicate (n + 1) rowTrack.base)) first
      other) : Spread low n a first other := by
  have hone := count_pos hN
  obtain ⟨hbases, hrows⟩ := value_rowBases (n := n) (by omega)
  rw [← hN] at hrows
  have hround := RoundsTo.sub havailable hbases
  rw [hvalue, hrows] at hround
  have hrowsRepresentable : Representable (64 * N) := hN ▸ representable_rows hn
  have hmany : 64 * N ≤ 2 ^ 15 := by linarith [count_le hN hn]
  have hslack : (available - total (List.replicate (n + 1) rowTrack.base)).isFinite = true :=
    (hround.abs_value_le (representable_two_pow (k := 15) (by norm_num))
      (abs_le.mpr ⟨by linarith, by linarith⟩)).1
  cases h with
  | surplus hsurplus shares =>
    have hspare : 64 * N ≤ a := by
      by_contra hlack
      have hnone := (hround.atMost representable_zero (by linarith)).value_le hslack
      linarith [positive_of_surplus hslack hsurplus]
    have hfew : n + 1 ≤ 200 := by
      have hcount : ((n + 1 : Nat) : ℚ) ≤ 200 := by
        push_cast
        linarith
      exact_mod_cast hcount
    have hlies := Lies.of_round hround le_rfl le_rfl (by linarith) (by linarith)
    have hmax : Lies 120 120 rowTrack.constraint.max :=
      .whole (n := 120) rfl (by norm_num) (by norm_num)
    have hbound : AtLeast rowTrack.constraint.max low := hmax.atLeast.mono (by linarith)
    exact grown_spread hN hfew rfl rowSize_lies (by norm_num) hspare hmost
      (hround.atLeast representable_zero (by linarith)) hlies (.inl hlow) hnonneg hbound
      (rowTrack_hasRoom .surplus) (by linarith) shares
  | deficit hdeficit shares =>
    have hlack : a ≤ 64 * N := by
      by_contra hspare
      have hnone := (hround.atLeast representable_zero (by linarith)).le_value hslack
      linarith [negative_of_deficit hslack hdeficit]
    have hround := hround.neg
    have hlies := Lies.of_error hround hrowsRepresentable (by linarith) (by linarith) (by linarith)
    have hunit : 64 * N / 2 ^ 24 = N / 2 ^ 18 := by ring
    rw [hunit] at hlies
    exact shrunk_spread hN hn ⟨hround.atLeast representable_zero (by linarith),
      hround.atMost hrowsRepresentable (by linarith)⟩ (hlies.mono (by linarith) (by linarith)) hroom
      hrepresentable hlow' shares
  | fits _ hdeficit =>
    have hspace : 64 * N ≤ a + 1 := by
      by_contra hlack
      have hmuch := (hround.atMost representable_one.neg (by linarith)).value_le hslack
      linarith [near_of_fits hslack hdeficit]
    exact ⟨64, by rw [← hN]; linarith, rowSize_lies.mono hlow (by norm_num),
      rowSize_lies.mono hlow le_rfl⟩

def columnTrack : Track Float32 :=
  ⟨.free, 0, 0⟩

theorem columns_spread (havailable : available.isFinite = true) (hvalue : value available = a)
    (hmost : a ≤ 10000) (hleast : 200 ≤ a)
    (h : SolvesAlike columnTrack 2 (available - total (List.replicate 3 columnTrack.base)) first
      other) : Spread 64 2 a first other := by
  have hnone : (total (List.replicate 3 columnTrack.base)).isFinite = true ∧
      value (total (List.replicate 3 columnTrack.base)) = 0 :=
    ⟨by decide, by rw [show total (List.replicate 3 columnTrack.base) = 0 by decide, value_zero]⟩
  have hround := RoundsTo.sub havailable hnone.1
  rw [hvalue, hnone.2, sub_zero] at hround
  obtain ⟨hfinite, hslack⟩ := hround.exact (hvalue ▸ value_representable available)
  have hsurplus : tolerance < available - total (List.replicate 3 columnTrack.base) := by
    refine (value_lt_iff tolerance_finite hfinite).mp ?_
    rw [hslack]
    linarith [tolerance_between.2]
  cases h with
  | surplus _ shares =>
    have hbase : Lies 0 0 columnTrack.size := .of_value rfl value_zero
    have hpart : (64 : ℚ) + 3 / 2 ^ 10 ≤ a / 3 := by linarith
    exact grown_spread (N := 3) (by norm_num) (by norm_num) rfl hbase le_rfl (by linarith) hmost
      (.inr ⟨hfinite, by linarith⟩) ⟨hfinite, by linarith, by linarith⟩ (.inr hpart) (by norm_num)
      (.inl rfl) (by decide) (by linarith) shares
  | deficit hdeficit _ => linarith [negative_of_deficit hfinite hdeficit]
  | fits hnone _ => exact absurd hsurplus hnone

end Gallery

end RetainedScene
