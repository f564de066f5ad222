import RetainedScene.Proofs.Number.Shares
import RetainedScene.Proofs.Path.Acceptance

/-!
# Fractions of the items

Items that are laid end to end have their centers in order, whatever the sums are rounded to. So the
fractions of an open path are shares of one number, in order and none of them above one.
-/

set_option autoImplicit false

namespace RetainedScene.PathLayout

open Binary32 Scalar

variable {p : PathLayout} {items : List Vec2} {cursor : Float32}

/-- Where the last item ends, of all items end to end. -/
def widthSum (p : PathLayout) : Float32 :=
  (p.items.map Vec2.x).foldl (· + ·) 0

def itemCenters (p : PathLayout) : List Float32 :=
  (centers 0 p.items).1

def firstCenter (p : PathLayout) : Float32 :=
  p.itemCenters.headD 0

def lastCenter (p : PathLayout) : Float32 :=
  p.itemCenters.getLastD 0

/-- What the distances from the first center are shares of. -/
def span (p : PathLayout) : Float32 :=
  if p.closed then p.widthSum else p.lastCenter - p.firstCenter

/-- By choice, or because the items have no width. -/
def SpreadEvenly (p : PathLayout) : Prop :=
  p.spacing = .even ∨ p.span ≤ 0

/-- Into how many equal parts evenly spread items divide the length. -/
def gapCount (p : PathLayout) : Nat :=
  if p.closed then p.items.length else p.items.length - 1

theorem centers_snd (cursor : Float32) (items : List Vec2) :
    (centers cursor items).2 = (items.map Vec2.x).foldl (· + ·) cursor := by
  induction items generalizing cursor with
  | nil => rfl
  | cons size rest ih => exact ih (cursor + size.x)

theorem weightedFractions_eq (p : PathLayout) : p.weightedFractions =
    if p.span ≤ 0 then p.evenFractions
    else p.itemCenters.map fun center => (center - p.firstCenter) / p.span := by
  have hstop := centers_snd 0 p.items
  have hlength := length_centers 0 p.items
  unfold weightedFractions span firstCenter lastCenter itemCenters widthSum
  rw [← hstop]
  split
  case h_1 hnone =>
    rw [hnone] at hlength
    have hitems : p.items = [] := List.length_eq_zero_iff.mp hlength.symm
    simp [evenFractions, hitems, centers]
  case h_2 first rest stop hsome =>
    simp only [hsome, List.headD_cons, List.getLastD_cons]

theorem fractions_of_spreadEvenly (h : p.SpreadEvenly) : p.fractions = p.evenFractions := by
  unfold fractions
  cases hspacing : p.spacing with
  | even => rfl
  | weighted =>
    have hspan : p.span ≤ 0 := h.resolve_left (by rw [hspacing]; decide)
    exact (weightedFractions_eq p).trans (if_pos hspan)

theorem fractions_of_not_spreadEvenly (h : ¬ p.SpreadEvenly) :
    p.fractions = p.itemCenters.map fun center => (center - p.firstCenter) / p.span := by
  obtain ⟨hspacing, hspan⟩ := not_or.mp h
  unfold fractions
  cases hkind : p.spacing with
  | even => exact absurd hkind hspacing
  | weighted => exact (weightedFractions_eq p).trans (if_neg hspan)

theorem getElem?_zero_firstCenter (h : p.itemCenters ≠ []) :
    p.itemCenters[0]? = some p.firstCenter := by
  obtain ⟨first, rest, hcenters⟩ := List.exists_cons_of_ne_nil h
  rw [firstCenter, hcenters]
  rfl

theorem getElem?_lastCenter (h : p.itemCenters ≠ []) :
    p.itemCenters[p.items.length - 1]? = some p.lastCenter := by
  have hlength : p.items.length = p.itemCenters.length := (length_centers 0 p.items).symm
  rw [hlength, ← List.getLast?_eq_getElem?, lastCenter, List.getLastD_eq_getLast?,
    List.getLast?_eq_some_getLast h]
  rfl

theorem firstCenter_mem (h : p.itemCenters ≠ []) : p.firstCenter ∈ p.itemCenters :=
  List.mem_of_getElem? (getElem?_zero_firstCenter h)

theorem lastCenter_mem (h : p.itemCenters ≠ []) : p.lastCenter ∈ p.itemCenters :=
  List.mem_of_getElem? (getElem?_lastCenter h)

/-! ### Centers in order -/

/-- Half of a width does not get past the width. -/
theorem half_between {width : Float32} (hfinite : width.isFinite = true) (hnonneg : 0 ≤ width) :
    AtLeast (width * 0.5) 0 ∧ width * 0.5 ≤ width := by
  have hvalue := (atLeast_zero_iff.mpr hnonneg).le_value hfinite
  have hround : RoundsTo (value width * value 0.5) (width * 0.5) := .mul hfinite rfl
  rw [value_half] at hround
  exact ⟨hround.atLeast representable_zero (by linarith),
    (hround.atMost (value_representable width) (by linarith)).le (atLeast_value hfinite)⟩

/-- A center is not before the end of the item before, nor after the end of its own. -/
theorem centers_between (hitems : ∀ size ∈ items, size.x.isFinite = true ∧ 0 ≤ size.x)
    (hcursor : AtLeast cursor 0) : cursor ≤ (centers cursor items).2 ∧
      (∀ center ∈ (centers cursor items).1, cursor ≤ center ∧ center ≤ (centers cursor items).2) ∧
      (centers cursor items).1.Pairwise (· ≤ ·) := by
  induction items generalizing cursor with
  | nil => exact ⟨le_refl hcursor.isNaN, by simp [centers], .nil⟩
  | cons size rest ih =>
    obtain ⟨⟨hfinite, hnonneg⟩, hrest⟩ := List.forall_mem_cons.mp hitems
    obtain ⟨hhalf, hle⟩ := half_between hfinite hnonneg
    have hnext := hcursor.add_nonneg (atLeast_zero_iff.mpr hnonneg)
    obtain ⟨hstop, hbetween, hordered⟩ := ih hrest hnext
    have hbefore : cursor ≤ cursor + size.x * 0.5 :=
      le_add_of_nonneg hcursor.isNaN hhalf (hcursor.add_nonneg hhalf).isNaN
    have hafter : cursor + size.x * 0.5 ≤ cursor + size.x :=
      add_le_add_of_atLeast hcursor hhalf (le_refl hcursor.isNaN) hle
    have hwhole := le_trans hbefore hafter
    refine ⟨le_trans hwhole hstop, ?_, ?_⟩
    · refine List.forall_mem_cons.mpr ⟨⟨hbefore, le_trans hafter hstop⟩, fun center hcenter => ?_⟩
      exact ⟨le_trans hwhole (hbetween center hcenter).1, (hbetween center hcenter).2⟩
    · exact .cons (fun center hcenter => le_trans hafter (hbetween center hcenter).1) hordered

theorem le_getLastD {xs : List Float32} {x : Float32} (h : xs.Pairwise (· ≤ ·)) (hx : x ∈ xs)
    (hnumber : x.isNaN = false) (default : Float32) : x ≤ xs.getLastD default := by
  induction xs generalizing default with
  | nil => cases hx
  | cons y rest ih =>
    obtain ⟨hfirst, hrest⟩ := List.pairwise_cons.mp h
    rw [List.getLastD_cons]
    rcases List.mem_cons.mp hx with rfl | hmem
    · have hmem : rest.getLastD x ∈ x :: rest := List.getLastD_mem_cons
      rcases List.mem_cons.mp hmem with hlast | hlast
      · rw [hlast]
        exact le_refl hnumber
      · exact hfirst _ hlast
    · exact ih hrest hmem y

namespace Checked

theorem widths (h : p.Checked) : ∀ size ∈ p.items, size.x.isFinite = true ∧ 0 ≤ size.x :=
  fun size hsize =>
    ⟨(Vec2.isFinite_iff.mp (h.items_good size hsize).1).1, (h.items_good size hsize).2.1⟩

theorem atLeast_widthSum (h : p.Checked) : AtLeast p.widthSum 0 := by
  have hstop := (centers_between h.widths atLeast_zero).1
  rw [centers_snd] at hstop
  exact atLeast_zero_iff.mpr hstop

theorem itemCenters_ordered (h : p.Checked) : p.itemCenters.Pairwise (· ≤ ·) :=
  (centers_between h.widths atLeast_zero).2.2

theorem itemCenters_between (h : p.Checked) {center : Float32} (hcenter : center ∈ p.itemCenters) :
    0 ≤ center ∧ center ≤ p.widthSum := by
  have hbetween := (centers_between h.widths atLeast_zero).2.1 center hcenter
  rwa [centers_snd] at hbetween

theorem firstCenter_le (h : p.Checked) {center : Float32} (hcenter : center ∈ p.itemCenters) :
    p.firstCenter ≤ center := by
  have hordered := h.itemCenters_ordered
  have hnumber := (le_iff_rank.mp (h.itemCenters_between hcenter).1).2.1
  unfold firstCenter
  cases hcenters : p.itemCenters with
  | nil =>
    rw [hcenters] at hcenter
    cases hcenter
  | cons first rest =>
    rw [hcenters] at hcenter hordered
    rcases List.mem_cons.mp hcenter with rfl | hmem
    · exact le_refl hnumber
    · exact (List.pairwise_cons.mp hordered).1 center hmem

theorem le_lastCenter (h : p.Checked) {center : Float32} (hcenter : center ∈ p.itemCenters) :
    center ≤ p.lastCenter :=
  le_getLastD h.itemCenters_ordered hcenter
    (le_iff_rank.mp (h.itemCenters_between hcenter).1).2.1 0

/-- Half of the first width, which does not overflow. -/
theorem isFinite_firstCenter (h : p.Checked) : p.firstCenter.isFinite = true := by
  cases hitems : p.items with
  | nil =>
    rw [firstCenter, itemCenters, hitems]
    rfl
  | cons size rest =>
    obtain ⟨hfinite, hnonneg⟩ := h.widths size (by simp [hitems])
    obtain ⟨hhalf, hle⟩ := half_between hfinite hnonneg
    have hfinite' := ((atMost_value hfinite).of_le hle).isFinite hhalf
    have hfirst : p.firstCenter = 0 + size.x * 0.5 := by
      rw [firstCenter, itemCenters, hitems]
      rfl
    rw [hfirst]
    refine ((RoundsTo.add rfl hfinite').exact ?_).1
    rw [value_zero, zero_add]
    exact value_representable _

/-- How far a center is from the first one, which may be infinite. -/
theorem distance_between (h : p.Checked) {center : Float32} (hcenter : center ∈ p.itemCenters) :
    0 ≤ center - p.firstCenter ∧
      center - p.firstCenter ≤ p.lastCenter - p.firstCenter := by
  have hfirst := h.isFinite_firstCenter
  have hleast := (atLeast_value hfirst).of_le (h.firstCenter_le hcenter)
  have hnonneg : AtLeast (center - p.firstCenter) 0 :=
    hleast.sub (atMost_value hfirst) representable_zero (by simp)
  refine ⟨atLeast_zero_iff.mp hnonneg, ?_⟩
  have hneg := isFinite_neg.trans hfirst
  rw [Binary32.sub_eq_add_neg, Binary32.sub_eq_add_neg]
  exact add_le_add_of_atLeast hleast (atLeast_value hneg) (h.le_lastCenter hcenter)
    (le_refl (isNaN_of_isFinite hneg))

theorem isFinite_center (h : p.Checked) (hwidth : p.widthSum.isFinite = true) {center : Float32}
    (hcenter : center ∈ p.itemCenters) : center.isFinite = true := by
  obtain ⟨hnonneg, hle⟩ := h.itemCenters_between hcenter
  exact ((atMost_value hwidth).of_le hle).isFinite (atLeast_zero_iff.mpr hnonneg)

end Checked

/-! ### Fractions in order -/

theorem gapCount_open (hopen : p.closed = false) : p.gapCount = p.items.length - 1 := by
  rw [gapCount, hopen]
  rfl

theorem gapCount_closed (hclosed : p.closed = true) : p.gapCount = p.items.length :=
  if_pos hclosed

theorem evenFraction_eq (h : p.items.length ≠ 1) : evenFraction p.closed p.items.length =
    fun index => Float32.ofNat index / Float32.ofNat p.gapCount := by
  funext index
  rw [evenFraction, if_neg h, gapCount]
  split <;> rfl

theorem evenFractions_ordered (hopen : p.closed = false) (hcount : p.items.length < 2 ^ 64) :
    p.evenFractions.Pairwise (· ≤ ·) ∧ ∀ fraction ∈ p.evenFractions, Within 1 fraction := by
  unfold evenFractions
  by_cases hone : p.items.length = 1
  · rw [hone]
    exact ⟨List.pairwise_singleton .., by simpa [evenFraction] using Within.zero one_pos.le⟩
  rw [evenFraction_eq hone, gapCount_open hopen]
  rcases Nat.lt_or_ge p.items.length 2 with hsmall | hlarge
  · obtain hnone : p.items.length = 0 := by omega
    rw [hnone]
    exact ⟨.nil, by simp⟩
  have hordered : ((List.range p.items.length).map Float32.ofNat).Pairwise (· ≤ ·) :=
    List.pairwise_map.mpr (List.pairwise_lt_range.imp fun hlt => ofNat_mono hlt.le)
  have hbetween : ∀ x ∈ (List.range p.items.length).map Float32.ofNat,
      0 ≤ x ∧ x ≤ Float32.ofNat (p.items.length - 1) := by
    intro x hx
    obtain ⟨index, hindex, rfl⟩ := List.mem_map.mp hx
    rw [List.mem_range] at hindex
    exact ⟨ofNat_nonneg index, ofNat_mono (by omega)⟩
  have hshares := shares_ordered hordered hbetween (isFinite_ofNat (by omega))
    (ofNat_pos (by omega))
  rwa [List.map_map] at hshares

theorem Checked.weightedFractions_ordered (h : p.Checked) (hopen : p.closed = false)
    (hwidth : p.widthSum.isFinite = true) (hspread : ¬ p.SpreadEvenly) :
    p.fractions.Pairwise (· ≤ ·) ∧ ∀ fraction ∈ p.fractions, Within 1 fraction := by
  have hspan : p.span = p.lastCenter - p.firstCenter := by simp [span, hopen]
  rw [fractions_of_not_spreadEvenly hspread]
  by_cases hnone : p.itemCenters = []
  · rw [hnone]
    exact ⟨.nil, by simp⟩
  have hfirst := h.isFinite_firstCenter
  have hlast := h.isFinite_center hwidth (lastCenter_mem hnone)
  have hordered : (p.itemCenters.map (· - p.firstCenter)).Pairwise (· ≤ ·) := by
    refine List.pairwise_map.mpr (h.itemCenters_ordered.imp_of_mem fun hx hy hle => ?_)
    exact sub_mono (h.isFinite_center hwidth hx) (h.isFinite_center hwidth hy) hfirst hle
  have hbetween : ∀ x ∈ p.itemCenters.map (· - p.firstCenter), 0 ≤ x ∧ x ≤ p.span := by
    intro x hx
    obtain ⟨center, hcenter, rfl⟩ := List.mem_map.mp hx
    rw [hspan]
    exact h.distance_between hcenter
  have hpos : 0 < p.span := by
    refine lt_of_not_le ?_ rfl (not_or.mp hspread).2
    rw [hspan]
    exact (RoundsTo.sub hlast hfirst).isNaN
  have hfinite : p.span.isFinite = true := by
    have hmost : AtMost p.span (value p.lastCenter) := by
      rw [hspan]
      exact (atMost_value hlast).sub (atLeast_zero_iff.mpr (h.itemCenters_between
        (firstCenter_mem hnone)).1) (value_representable _) (by simp)
    exact hmost.isFinite (atLeast_zero_iff.mpr (le_of_lt hpos))
  have hshares := shares_ordered hordered hbetween hfinite hpos
  rwa [List.map_map] at hshares

/-- Later items have no smaller fractions, and none is past the end. -/
theorem Checked.fractions_ordered (h : p.Checked) (hopen : p.closed = false)
    (hcount : p.items.length < 2 ^ 64)
    (hwidth : p.spacing = .weighted → p.widthSum.isFinite = true) :
    p.fractions.Pairwise (· ≤ ·) ∧ ∀ fraction ∈ p.fractions, Within 1 fraction := by
  by_cases hspread : p.SpreadEvenly
  · rw [fractions_of_spreadEvenly hspread]
    exact evenFractions_ordered hopen hcount
  · have hspacing : p.spacing = .weighted := by
      cases hkind : p.spacing with
      | even => exact absurd (.inl hkind) hspread
      | weighted => rfl
    exact h.weightedFractions_ordered hopen (hwidth hspacing) hspread

end RetainedScene.PathLayout
