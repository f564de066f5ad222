import RetainedScene.Proofs.Path.Closing
import RetainedScene.Proofs.Path.Fractions

/-!
# Short of the full turn

On a closed path the distance of an item that has the fraction one wraps to the start. It depends on
the last item alone whether that happens: on equal parts that are too many to be told apart, or on
centers that are as far from each other as all items are wide.
-/

set_option autoImplicit false

namespace RetainedScene.PathLayout

open Binary32 Scalar

variable {p : PathLayout} {solution : Solution}

/-- The last item of a closed path is not all of the way around. -/
structure StopsShort (p : PathLayout) : Prop where
  even : p.SpreadEvenly → 1 < p.items.length →
    Float32.ofNat (p.items.length - 1) < Float32.ofNat p.items.length
  weighted : ¬ p.SpreadEvenly → p.lastCenter - p.firstCenter < p.widthSum

theorem span_closed (hclosed : p.closed = true) : p.span = p.widthSum :=
  if_pos hclosed

theorem evenFractions_short_iff (hclosed : p.closed = true) :
    (∀ fraction ∈ p.evenFractions, 0 ≤ fraction ∧ fraction < 1) ↔
      (1 < p.items.length →
        Float32.ofNat (p.items.length - 1) < Float32.ofNat p.items.length) := by
  unfold evenFractions
  by_cases hone : p.items.length = 1
  · rw [hone, hclosed]
    exact iff_of_true (by decide) fun h => absurd h (Nat.lt_irrefl 1)
  rw [evenFraction_eq hone, gapCount_closed hclosed]
  constructor
  · intro h hmany
    have hlast := (h _ (List.mem_map_of_mem (List.mem_range.mpr (Nat.sub_one_lt (by omega))))).2
    exact (share_lt_one_iff (ofNat_nonneg _) (ofNat_mono (Nat.sub_le ..))
      (ofNat_pos (by omega))).mp hlast
  · intro h fraction hfraction
    obtain ⟨index, hindex, rfl⟩ := List.mem_map.mp hfraction
    rw [List.mem_range] at hindex
    refine within_belowOne_iff.mp (share_within_belowOne (ofNat_nonneg index) ?_)
    exact lt_of_le_of_lt (ofNat_mono (by omega)) (h (by omega))

theorem itemCenters_ne_nil (hclosed : p.closed = true) (hspread : ¬ p.SpreadEvenly) :
    p.itemCenters ≠ [] := by
  intro hnone
  have hlength : p.itemCenters.length = p.items.length := length_centers 0 p.items
  rw [hnone] at hlength
  have hitems : p.items = [] := List.length_eq_zero_iff.mp hlength.symm
  refine hspread (.inr ?_)
  rw [span_closed hclosed, widthSum, hitems]
  decide

theorem Checked.weightedFractions_short_iff (h : p.Checked) (hclosed : p.closed = true)
    (hspread : ¬ p.SpreadEvenly) :
    (∀ fraction ∈ p.fractions, 0 ≤ fraction ∧ fraction < 1) ↔
      p.lastCenter - p.firstCenter < p.widthSum := by
  have hpos : 0 < p.widthSum := by
    rw [← span_closed hclosed]
    refine lt_of_not_le ?_ rfl (not_or.mp hspread).2
    rw [span_closed hclosed]
    exact h.atLeast_widthSum.isNaN
  have hlast := lastCenter_mem (itemCenters_ne_nil hclosed hspread)
  obtain ⟨hnonneg, hself⟩ := h.distance_between hlast
  have hcenter := h.itemCenters_between hlast
  have hfirst : AtLeast p.firstCenter 0 := atLeast_zero_iff.mpr
    (h.itemCenters_between (firstCenter_mem (itemCenters_ne_nil hclosed hspread))).1
  have hle : p.lastCenter - p.firstCenter ≤ p.widthSum :=
    le_trans (sub_le_of_nonneg (le_iff_rank.mp hcenter.1).2.1 hfirst (le_iff_rank.mp hself).1)
      hcenter.2
  rw [fractions_of_not_spreadEvenly hspread, span_closed hclosed]
  constructor
  · intro hall
    exact (share_lt_one_iff hnonneg hle hpos).mp (hall _ (List.mem_map_of_mem hlast)).2
  · intro hlt fraction hfraction
    obtain ⟨center, hmem, rfl⟩ := List.mem_map.mp hfraction
    obtain ⟨hlow, hhigh⟩ := h.distance_between hmem
    exact within_belowOne_iff.mp (share_within_belowOne hlow (lt_of_le_of_lt hhigh hlt))

theorem Checked.fractions_short_iff (h : p.Checked) (hclosed : p.closed = true) :
    (∀ fraction ∈ p.fractions, 0 ≤ fraction ∧ fraction < 1) ↔ p.StopsShort := by
  by_cases hspread : p.SpreadEvenly
  · rw [fractions_of_spreadEvenly hspread, evenFractions_short_iff hclosed]
    exact ⟨fun heven => ⟨fun _ => heven, fun hnot => absurd hspread hnot⟩,
      fun hshort => hshort.even hspread⟩
  · rw [h.weightedFractions_short_iff hclosed hspread]
    exact ⟨fun hweighted => ⟨fun hyes => absurd hyes hspread, fun _ => hweighted⟩,
      fun hshort => hshort.weighted hspread⟩

/-- The items of a closed path are short of the full turn where the last one is, which with even
    spacing takes more items than a mantissa can count to fail. Then nothing is wrapped. -/
theorem solve_stopsShort (h : p.solve = .ok solution) (hclosed : p.closed = true) :
    ((∀ fraction ∈ p.fractions, 0 ≤ fraction ∧ fraction < 1) ↔ p.StopsShort) ∧
    (p.spacing = .even → p.items.length ≤ 2 ^ 24 → p.StopsShort) ∧
    (p.StopsShort → (p.offset == 0) = true → p.totalLength.isFinite = true → 0 < p.totalLength →
      ∀ fraction ∈ p.fractions, p.arc? fraction = some (p.reached fraction) ∧
        0 ≤ p.reached fraction ∧ p.reached fraction < p.totalLength) := by
  obtain ⟨hchecked, -⟩ := of_solve h
  have hiff := hchecked.fractions_short_iff hclosed
  refine ⟨hiff, fun heven hcount => ?_, fun hshort hoffset hfinite hpos fraction hfraction => ?_⟩
  · exact hiff.mp fun fraction hfraction =>
      within_belowOne_iff.mp (fractions_within hclosed heven hcount hfraction)
  · have hwithin := within_belowOne_iff.mpr (hiff.mpr hshort fraction hfraction)
    obtain ⟨hnonneg, hlt⟩ :=
      hchecked.reached_between hfinite (fun hle => not_lt_of_le hle hpos) hoffset hwithin
    refine ⟨?_, hnonneg, hlt⟩
    rw [hchecked.arc?_eq, PathLayout.arc, if_pos hclosed, wrap_eq_self hfinite hpos hnonneg hlt]

/-- The sides of a square, with items of these widths around it. -/
def around (widths : List Float32) : PathLayout where
  points := [⟨0, 0⟩, ⟨100, 0⟩, ⟨100, 100⟩, ⟨0, 100⟩]
  items := widths.map fun width => ⟨width, 10⟩
  spacing := .weighted
  length := none
  offset := 0
  closed := true

theorem around_stopsShort : ∃ solution, (around [10, 0]).solve = .ok solution ∧
    (around [10, 0]).closed = true ∧ (around [10, 0]).StopsShort ∧
    (around [10, 0]).totalLength.isFinite = true ∧ 0 < (around [10, 0]).totalLength ∧
    (∀ fraction ∈ (around [10, 0]).fractions, 0 ≤ fraction ∧ fraction < 1) ∧
    ∀ fraction ∈ (around [10, 0]).fractions,
      (around [10, 0]).arc? fraction = some ((around [10, 0]).reached fraction) ∧
        0 ≤ (around [10, 0]).reached fraction ∧
        (around [10, 0]).reached fraction < (around [10, 0]).totalLength := by
  have hfinite : (around [10, 0]).totalLength.isFinite = true := by decide +kernel
  have hpos : 0 < (around [10, 0]).totalLength := by decide +kernel
  have hlast : (around [10, 0]).lastCenter - (around [10, 0]).firstCenter <
      (around [10, 0]).widthSum := by decide +kernel
  have hspread : ¬ (around [10, 0]).SpreadEvenly :=
    not_or.mpr ⟨by decide, by decide +kernel⟩
  have hshort : (around [10, 0]).StopsShort := ⟨fun heven => absurd heven hspread, fun _ => hlast⟩
  obtain ⟨_, hsolve⟩ :=
    (problem?_eq_none_iff.mp (by decide : (around [10, 0]).problem? = none)).solve_eq
  obtain ⟨hiff, -, hwrap⟩ := solve_stopsShort hsolve rfl
  exact ⟨_, hsolve, rfl, hshort, hfinite, hpos, hiff.mpr hshort,
    hwrap hshort (by decide) hfinite hpos⟩

/-- Between a first and a last item without width there is all the width there is, so that the last
    item is where the first one is. -/
theorem around_repeats : ∃ solution, (around [0, 10, 0]).solve = .ok solution ∧
    (around [0, 10, 0]).closed = true ∧ (around [0, 10, 0]).offset = 0 ∧
    (around [0, 10, 0]).length = none ∧ (around [0, 10, 0]).fractions[2]? = some 1 ∧
    ¬ (∀ fraction ∈ (around [0, 10, 0]).fractions, 0 ≤ fraction ∧ fraction < 1) ∧
    (around [0, 10, 0]).arc? 1 = some 0 ∧
    solution.placements[2]? = solution.placements[0]? := by
  have hfirst : (around [0, 10, 0]).fractions[0]? = some 0 := by decide +kernel
  have hlast : (around [0, 10, 0]).fractions[2]? = some 1 := by decide +kernel
  have hpos : 0 < (around [0, 10, 0]).totalLength := by decide +kernel
  have hstay : (around [0, 10, 0]).arc 0 = 0 := by decide +kernel
  have hwrap : (around [0, 10, 0]).arc 1 = 0 := by decide +kernel
  have hchecked := problem?_eq_none_iff.mp (by decide : (around [0, 10, 0]).problem? = none)
  obtain ⟨_, hsolve⟩ := hchecked.solve_eq
  refine ⟨_, hsolve, rfl, rfl, rfl, hlast, ?_, ?_, ?_⟩
  · exact fun hall => absurd (hall 1 (List.mem_of_getElem? hlast)).2 (by decide)
  · rw [hchecked.arc?_eq, hwrap]
  · dsimp only
    rw [getElem?_placements hpos hlast, getElem?_placements hpos hfirst, spot, spot, hwrap, hstay]

end RetainedScene.PathLayout
