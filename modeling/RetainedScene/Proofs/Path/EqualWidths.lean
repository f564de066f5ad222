import RetainedScene.Proofs.Path.Fractions

/-!
# Items of one width

Laid end to end, items of one whole width have their centers at whole multiples of half of it. As long
as these are small enough, every sum and difference is exact, and the shares of the last of them are
those of the numbers of the items. Quotients of the same value are the same number, so that weighted
items are spread evenly.
-/

set_option autoImplicit false

namespace RetainedScene

open Binary32 Scalar

namespace Binary32

variable {x y : Float32}

theorem finite_of_beq (h : (x == y) = true) (hy : y.isFinite = true) :
    x.isFinite = true ∧ value x = value y := by
  obtain ⟨-, -, rfl | ⟨rfl, rfl⟩ | ⟨rfl, rfl⟩⟩ := Float32.beq_iff_ne_nan_and_eq.mp h
  · exact ⟨hy, rfl⟩
  · exact ⟨rfl, rfl⟩
  · exact ⟨rfl, rfl⟩

theorem representable_half {n : Nat} (hn : n ≤ 2 ^ 24) : Representable (n / 2) := by
  have hn' : (n : ℚ) ≤ 2 ^ 24 := by exact_mod_cast hn
  have hhalf : (n : ℚ) / 2 = signed .positive (n * 2 ^ (-1 : ℤ)) := by
    rw [signed, zpow_neg_one, div_eq_mul_inv]
  rw [hhalf]
  refine representable_signed hn (by norm_num) ?_ .positive
  rw [zpow_neg_one]
  linarith

end Binary32

namespace PathLayout

variable {p : PathLayout} {items : List Vec2} {cursor : Float32} {width : Nat}

/-- Every sum on the way is exact. -/
theorem centers_of_width (hitems : ∀ size ∈ items, size.x.isFinite = true ∧ value size.x = width)
    {before : Nat} (hcursor : cursor.isFinite = true ∧ value cursor = (before * width : Nat))
    (hsum : (before + items.length) * width ≤ 2 ^ 22) :
    ((centers cursor items).2.isFinite = true ∧
      value (centers cursor items).2 = ((before + items.length) * width : Nat)) ∧
      ∀ (index : Nat) center, (centers cursor items).1[index]? = some center →
        center.isFinite = true ∧ value center = ((2 * (before + index) + 1) * width : Nat) / 2 := by
  induction items generalizing cursor before with
  | nil => exact ⟨hcursor, by simp [centers]⟩
  | cons size rest ih =>
    obtain ⟨⟨hfinite, hvalue⟩, hrest⟩ := List.forall_mem_cons.mp hitems
    rw [List.length_cons] at hsum ⊢
    have hnext : (before + 1) * width ≤ 2 ^ 22 :=
      (Nat.mul_le_mul_right width (by omega)).trans hsum
    have hexpand : (before + 1) * width = before * width + width := by ring
    have hstep : (cursor + size.x).isFinite = true ∧
        value (cursor + size.x) = ((before + 1) * width : Nat) := by
      have hround := RoundsTo.add hcursor.1 hfinite
      rw [hcursor.2, hvalue, ← Nat.cast_add, ← hexpand] at hround
      exact hround.exact (representable_nat (by omega))
    have hhalf : (size.x * 0.5).isFinite = true ∧ value (size.x * 0.5) = (width : Nat) / 2 := by
      have hround : RoundsTo (value size.x * value 0.5) (size.x * 0.5) := .mul hfinite rfl
      rw [hvalue, value_half, mul_one_div] at hround
      exact hround.exact (representable_half (by omega))
    have hcenter : (cursor + size.x * 0.5).isFinite = true ∧
        value (cursor + size.x * 0.5) = ((2 * before + 1) * width : Nat) / 2 := by
      have hround := RoundsTo.add hcursor.1 hhalf.1
      have hsum : value cursor + value (size.x * 0.5) =
          (((2 * before + 1) * width : Nat) : ℚ) / 2 := by
        rw [hcursor.2, hhalf.2]
        push_cast
        ring
      rw [hsum] at hround
      have hdouble : (2 * before + 1) * width ≤ 2 * ((before + 1) * width) := by nlinarith
      exact hround.exact (representable_half (by omega))
    have hshift : before + (rest.length + 1) = before + 1 + rest.length := by omega
    rw [hshift] at hsum ⊢
    obtain ⟨hstop, hlater⟩ := ih hrest hstep hsum
    refine ⟨hstop, fun index center hindex => ?_⟩
    cases index with
    | zero =>
      obtain rfl := Option.some.inj hindex
      exact hcenter
    | succ index =>
      have hcount : before + (index + 1) = before + 1 + index := by omega
      rw [hcount]
      exact hlater index center hindex

theorem evenFraction_share {index : Nat} (hindex : index < p.items.length)
    (hcount : p.items.length ≤ 2 ^ 24) (hgaps : 0 < p.gapCount) :
    RoundsTo (index / p.gapCount) (evenFraction p.closed p.items.length index) ∧
      Magnitude (evenFraction p.closed p.items.length index) := by
  by_cases hone : p.items.length = 1
  · obtain rfl : index = 0 := by omega
    rw [evenFraction, if_pos hone, Nat.cast_zero, zero_div]
    exact ⟨RoundsTo.ofNat 0, .zero⟩
  have hbound : p.gapCount ≤ 2 ^ 24 := by
    unfold gapCount
    split <;> omega
  obtain ⟨hfinite, hvalue⟩ := (RoundsTo.ofNat index).exact (representable_nat (by omega))
  obtain ⟨hfinite', hvalue'⟩ := (RoundsTo.ofNat p.gapCount).exact (representable_nat hbound)
  have hpos : 0 < value (Float32.ofNat p.gapCount) := (value_pos_iff hfinite').mpr (ofNat_pos hgaps)
  have hround := RoundsTo.div hfinite hfinite' hpos.ne'
  rw [hvalue, hvalue'] at hround
  rw [evenFraction_eq hone]
  exact ⟨hround, (Magnitude.ofNat index).div hfinite hfinite' hpos⟩

section

variable (hitems : ∀ size ∈ p.items, size.x.isFinite = true ∧ value size.x = width)
  (hsum : p.items.length * width ≤ 2 ^ 22)

include hitems hsum

theorem widthSum_of_width : p.widthSum.isFinite = true ∧
    value p.widthSum = (p.items.length * width : Nat) := by
  have hzero : (0 : Float32).isFinite = true ∧ value 0 = (0 * width : Nat) :=
    ⟨rfl, by rw [zero_mul, Nat.cast_zero]; rfl⟩
  have hstop := (centers_of_width hitems hzero (by rwa [zero_add])).1
  rwa [zero_add, centers_snd] at hstop

theorem itemCenter_of_width {index : Nat} {center : Float32}
    (hcenter : p.itemCenters[index]? = some center) :
    center.isFinite = true ∧ value center = ((2 * index + 1) * width : Nat) / 2 := by
  have hzero : (0 : Float32).isFinite = true ∧ value 0 = (0 * width : Nat) :=
    ⟨rfl, by rw [zero_mul, Nat.cast_zero]; rfl⟩
  have hcenters := (centers_of_width hitems hzero (by rwa [zero_add])).2 index center hcenter
  rwa [zero_add] at hcenters

/-- How far a center is from the first one. -/
theorem fromFirst_of_width {index : Nat} {center : Float32}
    (hcenter : p.itemCenters[index]? = some center) : (center - p.firstCenter).isFinite = true ∧
      value (center - p.firstCenter) = (index * width : Nat) := by
  obtain ⟨hindex, -⟩ := List.getElem?_eq_some_iff.mp hcenter
  rw [itemCenters, length_centers] at hindex
  obtain ⟨hfinite, hvalue⟩ := itemCenter_of_width hitems hsum hcenter
  obtain ⟨hfirst, hvalue'⟩ := itemCenter_of_width hitems hsum
    (getElem?_zero_firstCenter (List.ne_nil_of_mem (List.mem_of_getElem? hcenter)))
  have hround := RoundsTo.sub hfinite hfirst
  have hdifference : value center - value p.firstCenter = (index * width : Nat) := by
    rw [hvalue, hvalue']
    push_cast
    ring
  have hsmall : index * width ≤ 2 ^ 22 := (Nat.mul_le_mul_right width hindex.le).trans hsum
  rw [hdifference] at hround
  exact hround.exact (representable_nat (by omega))

theorem fromFirst_magnitude (hpos : 0 < width) {index : Nat} {center : Float32}
    (hcenter : p.itemCenters[index]? = some center) : Magnitude (center - p.firstCenter) := by
  rcases Nat.eq_zero_or_pos index with rfl | hindex
  · have hne := List.ne_nil_of_mem (List.mem_of_getElem? hcenter)
    rw [getElem?_zero_firstCenter hne] at hcenter
    rw [← Option.some.inj hcenter,
      sub_self (itemCenter_of_width hitems hsum (getElem?_zero_firstCenter hne)).1]
    exact .zero
  · obtain ⟨hfinite, hvalue⟩ := fromFirst_of_width hitems hsum hcenter
    refine .of_pos hfinite ?_
    rw [hvalue]
    exact_mod_cast Nat.mul_pos hindex hpos

theorem span_of_width : p.span.isFinite = true ∧ value p.span = (p.gapCount * width : Nat) := by
  unfold span gapCount
  split
  case isTrue => exact widthSum_of_width hitems hsum
  case isFalse =>
    by_cases hnone : p.itemCenters = []
    · have hcount : p.items.length = 0 := by
        rw [← length_centers 0 p.items]
        exact List.length_eq_zero_iff.mpr hnone
      rw [lastCenter, firstCenter, hnone, hcount, Nat.zero_sub, zero_mul, Nat.cast_zero]
      exact ⟨rfl, rfl⟩
    · exact fromFirst_of_width hitems hsum (getElem?_lastCenter hnone)

/-- Equal quotients are rounded alike. -/
theorem weightedFractions_of_width : p.weightedFractions = p.evenFractions := by
  rw [weightedFractions_eq]
  split
  case isTrue => rfl
  case isFalse hspan =>
    obtain ⟨hfinite, hvalue⟩ := span_of_width hitems hsum
    have hpos : 0 < value p.span :=
      (value_pos_iff hfinite).mpr (lt_of_not_le (isNaN_of_isFinite hfinite) rfl hspan)
    have hproduct : 0 < p.gapCount * width := by
      rw [hvalue] at hpos
      exact_mod_cast hpos
    have hwidth : 0 < width := Nat.pos_of_mul_pos_left hproduct
    have hcount : p.items.length ≤ 2 ^ 24 :=
      (Nat.le_mul_of_pos_right _ hwidth).trans (hsum.trans (by norm_num))
    refine List.ext_getElem ?_ fun index hleft hright => ?_
    · rw [List.length_map, itemCenters, length_centers, evenFractions, List.length_map,
        List.length_range]
    rw [List.length_map] at hleft
    rw [evenFractions, List.length_map, List.length_range] at hright
    have hcenter := List.getElem?_eq_getElem hleft
    obtain ⟨hfinite', hvalue'⟩ := fromFirst_of_width hitems hsum hcenter
    have hmagnitude := fromFirst_magnitude hitems hsum hwidth hcenter
    obtain ⟨heven, hmagnitude'⟩ := evenFraction_share hright hcount
      (Nat.pos_of_mul_pos_right hproduct)
    have hround := RoundsTo.div hfinite' hfinite hpos.ne'
    have hshare : value (p.itemCenters[index] - p.firstCenter) / value p.span =
        index / p.gapCount := by
      rw [hvalue', hvalue]
      push_cast
      exact mul_div_mul_right _ _ (by exact_mod_cast hwidth.ne')
    rw [hshare] at hround
    simp only [evenFractions, List.getElem_map, List.getElem_range]
    exact hround.unique heven (hmagnitude.div hfinite' hfinite hpos) hmagnitude'

end

/-- Items that are all of one small whole width are where they are when they are spread evenly. -/
theorem solve_sameWidth (p : PathLayout) {width : Nat}
    (hwidth : ∀ size ∈ p.items, (size.x == Float32.ofNat width) = true)
    (hsum : p.items.length * width ≤ 2 ^ 22) :
    solve { p with spacing := .weighted } = solve { p with spacing := .even } := by
  have hitems : ∀ size ∈ p.items, size.x.isFinite = true ∧ value size.x = width := by
    intro size hsize
    have hsmall : width ≤ 2 ^ 22 :=
      (Nat.le_mul_of_pos_left width (List.length_pos_of_mem hsize)).trans hsum
    obtain ⟨hfinite, hvalue⟩ := (RoundsTo.ofNat width).exact (representable_nat (by omega))
    obtain ⟨hsizeFinite, hsizeValue⟩ := finite_of_beq (hwidth size hsize) hfinite
    exact ⟨hsizeFinite, hsizeValue.trans hvalue⟩
  have hfractions : fractions { p with spacing := .weighted } =
      fractions { p with spacing := .even } :=
    weightedFractions_of_width hitems hsum
  unfold solve
  rw [hfractions]
  rfl

/-- A closed path of which less than the whole is in use, with five items of the same width. -/
def wheel : PathLayout where
  points := [⟨0, 0⟩, ⟨10, 0⟩, ⟨10, 10⟩]
  items := List.replicate 5 ⟨3, 1⟩
  spacing := .even
  length := some 17
  offset := -4.75
  closed := true

theorem wheel_sameWidth : (∀ size ∈ wheel.items, (size.x == Float32.ofNat 3) = true) ∧
    wheel.items.length * 3 ≤ 2 ^ 22 ∧
    solve { wheel with spacing := .weighted } = solve { wheel with spacing := .even } := by
  have hwidth : ∀ size ∈ wheel.items, (size.x == Float32.ofNat 3) = true := by decide
  have hsum : wheel.items.length * 3 ≤ 2 ^ 22 := by decide
  exact ⟨hwidth, hsum, solve_sameWidth wheel hwidth hsum⟩

end PathLayout

end RetainedScene
