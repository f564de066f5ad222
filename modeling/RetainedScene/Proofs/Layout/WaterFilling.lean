import RetainedScene.Proofs.Layout.LevelRounds

/-!
# Water filling

The sizes that exact numbers give: one level for all tracks, but for what is left over when the
rounds end, and as much space filled as there is or as the tracks can take.
-/

set_option autoImplicit false

namespace RetainedScene

open Exact

variable {flow : Flow} {level : ℚ} {c : Constraint Exact} {constraints : List (Constraint Exact)}

def firstWithRoom (flow : Flow) (level : ℚ) (constraints : List (Constraint Exact)) : Option Nat :=
  (constraints.map (Track.at flow level)).findIdx? (Track.hasRoom flow)

theorem firstWithRoom_cons (hc : c.Regular) (flow : Flow) (level : ℚ)
    (others : List (Constraint Exact)) : firstWithRoom flow level (c :: others) =
      if c.roomAt flow level then some 0 else (firstWithRoom flow level others).map (· + 1) := by
  rw [firstWithRoom, List.map_cons, List.findIdx?_cons, Track.hasRoom_at hc]
  rfl

def moves (flow : Flow) (level extra : ℚ) (constraints : List (Constraint Exact)) : List ℚ :=
  constraints.mapIdx fun index c => c.drawn flow level +
    if firstWithRoom flow level constraints = some index then extra else 0

theorem moves_cons_room (hc : c.Regular) (hroom : c.roomAt flow level = true) (extra : ℚ)
    (others : List (Constraint Exact)) : moves flow level extra (c :: others) =
      (c.drawn flow level + extra) :: others.map (Constraint.drawn flow level) := by
  rw [moves, List.mapIdx_cons, firstWithRoom_cons hc, hroom, if_pos rfl, if_pos rfl]
  refine congrArg _ (List.ext_getElem (by simp) fun k _ _ => ?_)
  simp

theorem moves_cons_noRoom (hc : c.Regular) (hroom : c.roomAt flow level = false) (extra : ℚ)
    (others : List (Constraint Exact)) : moves flow level extra (c :: others) =
      c.drawn flow level :: moves flow level extra others := by
  rw [moves, List.mapIdx_cons, firstWithRoom_cons hc, hroom, if_neg Bool.false_ne_true]
  simp [moves]

namespace Constraint

/-- How far a track can get. One without weight stays at its base. -/
def reach (flow : Flow) (c : Constraint Exact) : Exact :=
  if 0 < c.weight flow then c.room flow else number 0

theorem drawn_le_reach (h : c.Regular) (flow : Flow) (level : ℚ) :
    number (c.drawn flow level) ≤ c.reach flow := by
  rw [reach]
  split_ifs with hweight
  · exact cap_le _ _
  · have hzero : c.weight flow = 0 := le_antisymm (not_lt.mp hweight) (h.weight_nonneg flow)
    rw [drawn, hzero, mul_zero, number_le_number]
    exact cap_le_self _ _

theorem drawn_of_noRoom_eq (h : c.Regular) (hroom : c.roomAt flow level = false) :
    number (c.drawn flow level) = c.reach flow := by
  rw [reach]
  split_ifs with hweight
  · refine number_cap (not_lt_iff_le.mp fun hlt => Bool.false_ne_true ?_)
    exact hroom.symm.trans (roomAt_eq_true.mpr ⟨hweight, hlt⟩)
  · have hzero : c.weight flow = 0 := le_antisymm (not_lt.mp hweight) (h.weight_nonneg flow)
    rw [drawn, hzero, mul_zero, cap_eq_self (h.room_nonneg flow)]

end Constraint

theorem giveRest_at (h : ∀ c ∈ constraints, c.Regular) (flow : Flow) (level : ℚ) {rest : ℚ}
    (hrest : 0 ≤ rest) : ∃ extra, 0 ≤ extra ∧ extra ≤ rest ∧
      (giveRest flow (number rest) (constraints.map (Track.at flow level))).map Track.size =
        (List.zipWith (Constraint.movedBy flow) (moves flow level extra constraints)
          constraints).map number ∧
      (moves flow level extra constraints).sum = drawnBy flow constraints level + extra ∧
      List.Forall₂ (fun move c => number move ≤ Constraint.reach flow c)
        (moves flow level extra constraints) constraints ∧
      (constraints.any (Constraint.roomAt flow level) = false → extra = 0) := by
  induction constraints with
  | nil => exact ⟨0, le_rfl, hrest, rfl, by simp [moves, drawnBy], .nil, fun _ => rfl⟩
  | cons c others ih =>
    have hc := h c List.mem_cons_self
    have hothers : ∀ d ∈ others, d.Regular := fun d hd => h d (List.mem_cons_of_mem _ hd)
    rw [List.map_cons, giveRest, Track.hasRoom_at hc]
    cases hroom : c.roomAt flow level with
    | true =>
      obtain ⟨move, hmove⟩ : ∃ move, move = (c.room flow).cap (c.drawn flow level + rest) :=
        ⟨_, rfl⟩
      have hdrawn : c.drawn flow level ≤ move := by
        rw [hmove]
        exact le_cap (le_add_of_nonneg_right hrest) (cap_le _ _)
      have hmoved : move ≤ c.drawn flow level + rest := by
        rw [hmove]
        exact cap_le_self _ _
      have hreach : number move ≤ c.reach flow := by
        rw [Constraint.reach, if_pos (Constraint.roomAt_eq_true.mp hroom).1, hmove]
        exact cap_le _ _
      refine ⟨move - c.drawn flow level, sub_nonneg.mpr hdrawn, by linarith, ?_⟩
      rw [moves_cons_room hc hroom, add_sub_cancel, if_pos rfl, Track.withRest_at hc, ← hmove]
      refine ⟨?_, ?_, .cons hreach ?_, fun hnone => ?_⟩
      · simp only [List.map_cons, List.zipWith_cons_cons, List.zipWith_map_left,
          List.zipWith_self, List.map_map]
        rfl
      · rw [List.sum_cons, drawnBy, List.map_cons, List.sum_cons]
        change move + drawnBy flow others level = _ + drawnBy flow others level + _
        linarith
      · exact List.forall₂_map_left_iff.mpr
          (List.forall₂_same.mpr fun d hd => Constraint.drawn_le_reach (hothers d hd) flow level)
      · rw [List.any_cons, hroom] at hnone
        cases hnone
    -- The first track with room is that of the others.
    | false =>
      obtain ⟨extra, hextra, hle, hsizes, hsum, hreach, hnone⟩ := ih hothers
      refine ⟨extra, hextra, hle, ?_⟩
      rw [moves_cons_noRoom hc hroom, if_neg Bool.false_ne_true]
      refine ⟨?_, ?_, .cons (Constraint.drawn_le_reach hc flow level) hreach, fun hall => ?_⟩
      · rw [List.map_cons, hsizes]
        rfl
      · rw [List.sum_cons, hsum, drawnBy, drawnBy, List.map_cons, List.sum_cons, add_assoc]
      · rw [List.any_cons, hroom, Bool.false_or] at hall
        exact hnone hall

theorem sum_movedBy (flow : Flow) {moved : List ℚ} (hlength : moved.length = constraints.length) :
    (List.zipWith (Constraint.movedBy flow) moved constraints).sum =
      match flow with
      | .surplus => (constraints.map Constraint.baseSize).sum + moved.sum
      | .deficit => (constraints.map Constraint.baseSize).sum - moved.sum := by
  induction constraints generalizing moved with
  | nil =>
    obtain rfl := List.length_eq_zero_iff.mp hlength
    cases flow <;> simp
  | cons c others ih =>
    cases moved with
    | nil => simp at hlength
    | cons move rest =>
      have hrest := ih (Nat.succ.inj hlength)
      rw [List.zipWith_cons_cons, List.sum_cons, hrest]
      cases flow with
      | surplus =>
        simp only [Constraint.movedBy, List.map_cons, List.sum_cons]
        ring
      | deficit =>
        simp only [Constraint.movedBy, List.map_cons, List.sum_cons]
        ring

namespace Constraint

def capacity (c : Constraint Exact) : Exact :=
  if Scalar.zero < c.stretch then c.max else number c.baseSize

theorem capacity_eq (h : c.Regular) :
    c.capacity = if 0 < c.weight .surplus then c.max else number c.baseSize := by
  rw [capacity, h.stretch_eq, zero_eq]
  simp only [number_lt_number]
  rfl

theorem movedBy_le_capacity (h : c.Regular) {distance : ℚ}
    (hreach : number distance ≤ c.reach .surplus) :
    number (c.movedBy .surplus distance) ≤ c.capacity := by
  rw [capacity_eq h]
  rw [reach] at hreach
  split_ifs at hreach ⊢ with hweight
  · rw [← cap_eq_self hreach, movedBy_cap_surplus]
    exact cap_le _ _
  · rw [movedBy, number_le_number]
    rw [number_le_number] at hreach
    linarith

theorem movedBy_eq_capacity (h : c.Regular) {distance : ℚ}
    (hreach : number distance = c.reach .surplus) :
    number (c.movedBy .surplus distance) = c.capacity := by
  rw [capacity_eq h]
  rw [reach] at hreach
  split_ifs at hreach ⊢ with hweight
  · rw [room] at hreach
    cases hmax : c.max with
    | infinite =>
      rw [hmax] at hreach
      cases hreach
    | number limit =>
      rw [hmax, number_sub] at hreach
      rw [movedBy, Exact.number.inj hreach, add_sub_cancel]
  · rw [movedBy, Exact.number.inj hreach, add_zero]

theorem min_le_movedBy (h : c.Regular) {distance : ℚ}
    (hreach : number distance ≤ c.reach .deficit) :
    c.min.value ≤ c.movedBy .deficit distance := by
  have hbase := h.min_le_base
  rw [reach] at hreach
  rw [movedBy]
  split_ifs at hreach with hweight
  · rw [room, number_le_number] at hreach
    linarith
  · rw [number_le_number] at hreach
    linarith

theorem movedBy_eq_min (h : c.Regular) {distance : ℚ}
    (hreach : number distance = c.reach .deficit) :
    c.movedBy .deficit distance = c.min.value := by
  have hbase := h.min_le_base
  have hmin := h.min_nonneg
  rw [reach] at hreach
  rw [movedBy]
  split_ifs at hreach with hweight
  · rw [Exact.number.inj hreach, sub_sub_cancel]
  · rw [Exact.number.inj hreach]
    rw [weight] at hweight
    linarith

end Constraint

theorem moves_zero (flow : Flow) (level : ℚ) (constraints : List (Constraint Exact)) :
    moves flow level 0 constraints = constraints.map (Constraint.drawn flow level) := by
  refine List.ext_getElem (by simp [moves]) fun k _ _ => ?_
  simp [moves]

theorem zipWith_moves (flow : Flow) (level extra : ℚ) (constraints : List (Constraint Exact)) :
    List.zipWith (Constraint.movedBy flow) (moves flow level extra constraints) constraints =
      constraints.mapIdx fun index c => c.movedBy flow (c.drawn flow level +
        if firstWithRoom flow level constraints = some index then extra else 0) := by
  refine List.ext_getElem (by simp [moves]) fun k _ _ => ?_
  simp [moves]

/-- How tracks have moved when the rounds are over and what was left is given away. -/
structure Shared (flow : Flow) (constraints : List (Constraint Exact)) (slack level extra : ℚ)
    (moved : List ℚ) : Prop where
  level_nonneg : 0 ≤ level
  extra_nonneg : 0 ≤ extra
  extra_le : extra ≤ 1 / 10000
  moved_eq : moved = moves flow level extra constraints
  sum_le : moved.sum ≤ slack
  reach : List.Forall₂ (fun move c => number move ≤ Constraint.reach flow c) moved constraints
  done : slack - 1 / 10000 ≤ moved.sum ∨
    List.Forall₂ (fun move c => number move = Constraint.reach flow c) moved constraints

theorem shareOut_shared (h : ∀ c ∈ constraints, c.Regular) (flow : Flow) {slack : ℚ}
    (hslack : 1 / 10000 < slack) : ∃ level extra moved,
      Shared flow constraints slack level extra moved ∧
        (shareOut flow (constraints.length + 1) (constraints.map (Track.at flow 0))
            (number slack)).map Track.size =
          (List.zipWith (Constraint.movedBy flow) moved constraints).map number := by
  have hnone : drawnBy flow constraints 0 = 0 := by
    rw [drawnBy, List.map_congr_left fun c hc => Constraint.drawn_zero (h c hc) flow]
    simp
  have hrounds : roomyCount flow constraints 0 < constraints.length + 1 :=
    Nat.lt_succ_of_le (List.length_filter_le ..)
  obtain ⟨level, settled, hshare⟩ := shareOut_at h (constraints.length + 1) le_rfl
    (by rwa [hnone, sub_zero]) hrounds
  obtain ⟨extra, hextra, hle, hsizes, hsum, hreach, hnoRoom⟩ :=
    giveRest_at h flow level settled.nonneg
  rw [hnone, sub_zero] at hshare
  refine ⟨level, extra, _, ⟨settled.level_nonneg, hextra, ?_, rfl, ?_, hreach, ?_⟩, ?_⟩
  · rcases settled.done with hdone | hdone
    · exact hle.trans hdone
    · rw [hnoRoom hdone]
      norm_num
  · rw [hsum]
    linarith
  · refine settled.done.imp (fun hdone => ?_) fun hdone => ?_
    · rw [hsum]
      linarith
    · rw [hnoRoom hdone, moves_zero]
      refine List.forall₂_map_left_iff.mpr (List.forall₂_same.mpr fun c hc => ?_)
      exact Constraint.drawn_of_noRoom_eq (h c hc) (by simpa using List.any_eq_false.mp hdone c hc)
  · rw [hshare, hsizes]

/-- Sizes for a surplus: a level up to which tracks are filled, and as much space used as there is
    or as they can take. -/
structure Raised (constraints : List (Constraint Exact)) (available : ℚ) (sizes : List ℚ) :
    Prop where
  level : ∃ level extra : ℚ, 0 ≤ level ∧ 0 ≤ extra ∧ extra ≤ 1 / 10000 ∧
    sizes = constraints.mapIdx fun index c =>
      c.max.cap (c.baseSize + level * c.stretch.value) +
        if firstWithRoom .surplus level constraints = some index then extra else 0
  sum : |sizes.sum - (Scalar.total (constraints.map Constraint.capacity)).cap available| ≤
    1 / 10000

/-- Sizes for a deficit: a level down to which tracks are drained, and no more space used than
    there is or than they need. -/
structure Lowered (constraints : List (Constraint Exact)) (available : ℚ) (sizes : List ℚ) :
    Prop where
  level : ∃ level extra : ℚ, 0 ≤ level ∧ 0 ≤ extra ∧ extra ≤ 1 / 10000 ∧
    sizes = constraints.mapIdx fun index c =>
      max c.min.value (c.baseSize * (1 - level)) -
        if firstWithRoom .deficit level constraints = some index then extra else 0
  sum : |sizes.sum - max available (constraints.map fun c => c.min.value).sum| ≤ 1 / 10000

theorem forall₂_movedBy {R : ℚ → Constraint Exact → Prop} {Q : ℚ → Constraint Exact → Prop}
    {moved : List ℚ} (h : List.Forall₂ R moved constraints)
    (hstep : ∀ c ∈ constraints, ∀ move, R move c → Q (c.movedBy flow move) c) :
    List.Forall₂ Q (List.zipWith (Constraint.movedBy flow) moved constraints) constraints := by
  induction h with
  | nil => exact .nil
  | cons hR _ ih =>
    exact .cons (hstep _ List.mem_cons_self _ hR)
      (ih fun c hc => hstep c (List.mem_cons_of_mem _ hc))

theorem raised_of_shared (h : ∀ c ∈ constraints, c.Regular) {available level extra : ℚ}
    {moved : List ℚ} (shared : Shared .surplus constraints
      (available - (constraints.map Constraint.baseSize).sum) level extra moved) :
    Raised constraints available
      (List.zipWith (Constraint.movedBy .surplus) moved constraints) := by
  refine ⟨⟨level, extra, shared.level_nonneg, shared.extra_nonneg, shared.extra_le, ?_⟩, ?_⟩
  · rw [shared.moved_eq, zipWith_moves]
    refine List.mapIdx_eq_mapIdx_iff.mpr fun index hindex => ?_
    rw [← Constraint.levelSize_surplus, Constraint.levelSize, Constraint.movedBy,
      Constraint.movedBy, add_assoc]
  · have hsum := sum_movedBy .surplus shared.reach.length_eq
    have hle := shared.sum_le
    have hcapacity := sum_le_total (List.forall₂_map_right_iff.mpr
      (forall₂_movedBy shared.reach fun c hc _ => Constraint.movedBy_le_capacity (h c hc)))
    obtain ⟨total, htotal⟩ : ∃ total, total = Scalar.total (constraints.map Constraint.capacity) :=
      ⟨_, rfl⟩
    obtain ⟨sum, hsizes⟩ : ∃ sum, sum =
        (List.zipWith (Constraint.movedBy .surplus) moved constraints).sum := ⟨_, rfl⟩
    rw [← htotal, ← hsizes] at hcapacity ⊢
    rw [← hsizes] at hsum
    have hupper : sum ≤ total.cap available := le_cap (by linarith) hcapacity
    have hlower : total.cap available - 1 / 10000 ≤ sum := by
      rcases shared.done with hdone | hdone
      · have := cap_le_self available total
        linarith
      · have hfull := forall₂_movedBy (Q := fun size c => number size = c.capacity) hdone
          fun c hc _ => Constraint.movedBy_eq_capacity (h c hc)
        have hmap : (List.zipWith (Constraint.movedBy .surplus) moved constraints).map number =
            constraints.map Constraint.capacity := by
          rw [← List.forall₂_eq_eq_eq]
          exact List.forall₂_map_left_iff.mpr (List.forall₂_map_right_iff.mpr hfull)
        rw [htotal, ← hmap, total_number, ← hsizes, cap]
        have := min_le_right available sum
        linarith
    rw [abs_le]
    constructor <;> linarith

theorem lowered_of_shared (h : ∀ c ∈ constraints, c.Regular) {available level extra : ℚ}
    {moved : List ℚ} (shared : Shared .deficit constraints
      ((constraints.map Constraint.baseSize).sum - available) level extra moved) :
    Lowered constraints available
      (List.zipWith (Constraint.movedBy .deficit) moved constraints) := by
  refine ⟨⟨level, extra, shared.level_nonneg, shared.extra_nonneg, shared.extra_le, ?_⟩, ?_⟩
  · rw [shared.moved_eq, zipWith_moves]
    refine List.mapIdx_eq_mapIdx_iff.mpr fun index hindex => ?_
    rw [← Constraint.levelSize_deficit, Constraint.levelSize, Constraint.movedBy,
      Constraint.movedBy, sub_sub]
  · have hsum := sum_movedBy .deficit shared.reach.length_eq
    have hle := shared.sum_le
    have hneeded := List.Forall₂.sum_le_sum (List.forall₂_map_left_iff.mpr
      (forall₂_movedBy shared.reach fun c hc _ => Constraint.min_le_movedBy (h c hc)).flip)
    obtain ⟨sum, hsizes⟩ : ∃ sum, sum =
        (List.zipWith (Constraint.movedBy .deficit) moved constraints).sum := ⟨_, rfl⟩
    rw [← hsizes] at hneeded hsum ⊢
    have hlower : max available (constraints.map fun c => c.min.value).sum ≤ sum :=
      max_le (by linarith) hneeded
    have hupper : sum ≤ max available (constraints.map fun c => c.min.value).sum + 1 / 10000 := by
      rcases shared.done with hdone | hdone
      · have := le_max_left available (constraints.map fun c => c.min.value).sum
        linarith
      · have hfull := forall₂_movedBy (Q := fun size c => size = c.min.value) hdone
          fun c hc _ => Constraint.movedBy_eq_min (h c hc)
        have hmap : List.zipWith (Constraint.movedBy .deficit) moved constraints =
            constraints.map fun c => c.min.value := by
          rw [← List.forall₂_eq_eq_eq]
          exact List.forall₂_map_right_iff.mpr hfull
        rw [← hmap, ← hsizes]
        have := le_max_right available sum
        linarith
    rw [abs_le]
    constructor <;> linarith

theorem Track.at_zero {c : Constraint Exact} (h : c.Regular) (flow : Flow) :
    Track.at flow 0 c = ⟨c, number c.baseSize, number c.baseSize⟩ := by
  rw [Track.at, Constraint.levelSize, Constraint.drawn_zero h]
  cases flow with
  | surplus => rw [Constraint.movedBy, add_zero]
  | deficit => rw [Constraint.movedBy, sub_zero]

/-- Space that differs from what the bases take is shared out by levels. -/
theorem fillTracks_levels (constraints : List (Constraint Exact)) (available : ℚ)
    (accepted : ∀ c ∈ constraints, c.flaw? = none) :
    (∀ c ∈ constraints, c.base? = some (number c.baseSize)) ∧
      ∃ sizes : List ℚ, fillTracks constraints (number available) = .ok (sizes.map number) ∧
        (1 / 10000 < available - (constraints.map Constraint.baseSize).sum →
          Raised constraints available sizes) ∧
        (available - (constraints.map Constraint.baseSize).sum < -(1 / 10000) →
          Lowered constraints available sizes) ∧
        (|available - (constraints.map Constraint.baseSize).sum| ≤ 1 / 10000 →
          sizes = constraints.map Constraint.baseSize) := by
  have h : ∀ c ∈ constraints, c.Regular := fun c hc => Constraint.regular_of_flaw? (accepted c hc)
  have hbase : ∀ c ∈ constraints, c.base? = some (number c.baseSize) :=
    fun c hc => (h c hc).base_eq
  refine ⟨hbase, ?_⟩
  have hstart : ∀ flow, constraints.map (fun c => (⟨c, number c.baseSize, number c.baseSize⟩ :
      Track Exact)) = constraints.map (Track.at flow 0) := fun flow =>
    List.map_congr_left fun c hc => (Track.at_zero (h c hc) flow).symm
  have htotal : Scalar.total ((constraints.map fun c =>
      (⟨c, number c.baseSize, number c.baseSize⟩ : Track Exact)).map Track.size) =
        number (constraints.map Constraint.baseSize).sum := by
    rw [← total_number, List.map_map, List.map_map]
    rfl
  obtain ⟨slack, hslack⟩ : ∃ slack, slack = available - (constraints.map Constraint.baseSize).sum :=
    ⟨_, rfl⟩
  rw [fillTracks, mapM_ofConstraint hbase]
  simp only [bind, Except.bind, pure, Except.pure, htotal, number_sub, ← hslack, tolerance_eq,
    neg_number, number_lt_number, List.length_map]
  rcases lt_or_ge (1 / 10000) slack with hsurplus | hsurplus
  · obtain ⟨level, extra, moved, shared, hshare⟩ := shareOut_shared h .surplus hsurplus
    rw [if_pos hsurplus, hstart .surplus, hshare]
    refine ⟨_, rfl, fun _ => raised_of_shared h (hslack ▸ shared), fun hdeficit => ?_, fun heven => ?_⟩
    · linarith
    · exact absurd (le_of_abs_le heven) (not_le.mpr hsurplus)
  · rw [if_neg (not_lt.mpr hsurplus)]
    rcases lt_or_ge slack (-(1 / 10000)) with hdeficit | hdeficit
    · obtain ⟨level, extra, moved, shared, hshare⟩ :=
        shareOut_shared h .deficit (lt_neg_of_lt_neg hdeficit)
      rw [if_pos hdeficit, hstart .deficit, hshare]
      rw [hslack, neg_sub] at shared
      refine ⟨_, rfl, fun hsurplus' => ?_, fun _ => lowered_of_shared h shared, fun heven => ?_⟩
      · linarith
      · exact absurd (neg_le_of_abs_le heven) (not_le.mpr hdeficit)
    · rw [if_neg (not_lt.mpr hdeficit), List.map_map]
      refine ⟨constraints.map Constraint.baseSize, ?_, fun hsurplus' => ?_, fun hdeficit' => ?_,
        fun _ => rfl⟩
      · rw [List.map_map]
        rfl
      · linarith
      · linarith

/-- A column without a largest size, one that grows twice as fast but not far, and a fixed one. -/
def sampleColumns : List (Constraint Exact) :=
  [⟨number 10, infinite, number 20, number 1⟩, ⟨number 0, number 30, number 10, number 2⟩,
    ⟨number 5, number 5, number 5, number 0⟩]

theorem sampleColumns_levels : (∀ c ∈ sampleColumns, c.flaw? = none) ∧
    (∃ sizes : List ℚ, fillTracks sampleColumns (number 100) = .ok (sizes.map number) ∧
      Raised sampleColumns 100 sizes) ∧
    (∃ sizes : List ℚ, fillTracks sampleColumns (number 20) = .ok (sizes.map number) ∧
      Lowered sampleColumns 20 sizes) ∧
    fillTracks sampleColumns (number 100) = .ok [number 65, number 30, number 5] := by
  have accepted : ∀ c ∈ sampleColumns, c.flaw? = none := by decide
  obtain ⟨-, sizes, hsizes, hraised, -, -⟩ := fillTracks_levels sampleColumns 100 accepted
  obtain ⟨-, sizes', hsizes', -, hlowered, -⟩ := fillTracks_levels sampleColumns 20 accepted
  exact ⟨accepted, ⟨sizes, hsizes, hraised (by decide +kernel)⟩,
    ⟨sizes', hsizes', hlowered (by decide +kernel)⟩, by decide +kernel⟩

end RetainedScene
