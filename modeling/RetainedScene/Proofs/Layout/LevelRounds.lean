import Mathlib.Algebra.Order.BigOperators.Group.List
import RetainedScene.Proofs.Layout.Level
import RetainedScene.Proofs.Layout.Rounds

/-!
# Rounds of levels

With exact numbers every state between two rounds is a level: all tracks are where the level puts
them, and what is left to share out is what the level has not drawn yet. A round that leaves
something over has brought a track to its bound, so that the rounds end, and at the end hardly
anything is left or no track has room.
-/

set_option autoImplicit false

namespace RetainedScene

open Exact

def Track.at (flow : Flow) (level : ℚ) (c : Constraint Exact) : Track Exact :=
  ⟨c, number c.baseSize, number (c.levelSize flow level)⟩

namespace Track

variable {flow : Flow} {level : ℚ} {c : Constraint Exact}

theorem weight_at (h : c.Regular) (flow : Flow) (level : ℚ) :
    (Track.at flow level c).weight flow = number (c.weight flow) := by
  cases flow with
  | surplus => exact h.stretch_eq
  | deficit => rfl

theorem beforeBound_at (h : c.Regular) (flow : Flow) (level : ℚ) :
    (Track.at flow level c).beforeBound flow =
      decide (number (level * c.weight flow) < c.room flow) := by
  cases flow with
  | surplus =>
    exact decide_eq_decide.mpr ((Constraint.movedBy_lt_max _ c).trans cap_lt_iff)
  | deficit =>
    exact decide_eq_decide.mpr ((Constraint.min_lt_movedBy h _).trans cap_lt_iff)

theorem hasRoom_at (h : c.Regular) (flow : Flow) (level : ℚ) :
    (Track.at flow level c).hasRoom flow = c.roomAt flow level := by
  rw [hasRoom, weight_at h, beforeBound_at h, zero_eq, Constraint.roomAt]
  simp

theorem target_at (h : c.Regular) (hroom : c.roomAt flow level = true) (amount weight : ℚ) :
    (Track.at flow level c).target (number amount) (number weight) flow =
      number (c.movedBy flow ((level + amount / weight) * c.weight flow)) := by
  have hdrawn := Constraint.drawn_of_room hroom
  cases flow with
  | surplus =>
    rw [target, Track.at, h.stretch_eq, Constraint.levelSize, hdrawn]
    simp only [number_mul, number_div, number_add, Constraint.movedBy, Constraint.weight]
    congr 1
    ring
  | deficit =>
    rw [target, Track.at, Constraint.levelSize, hdrawn]
    simp only [number_mul, number_div, number_sub, Constraint.movedBy, Constraint.weight]
    congr 1
    ring

/-- It gets to its bound when there is no room left for it at that level. -/
theorem reaches_at (h : c.Regular) (hroom : c.roomAt flow level = true) (next : ℚ) :
    (Track.at flow level c).reaches (number (c.movedBy flow (next * c.weight flow))) flow =
      !c.roomAt flow next := by
  have hweight := (Constraint.roomAt_eq_true.mp hroom).1
  have hnext : c.roomAt flow next = decide (number (next * c.weight flow) < c.room flow) := by
    rw [Constraint.roomAt, decide_eq_true hweight, Bool.true_and]
  rw [hnext, ← decide_not]
  cases flow with
  | surplus =>
    exact decide_eq_decide.mpr
      (not_lt_iff_le.symm.trans (not_congr (Constraint.movedBy_lt_max _ c)))
  | deficit =>
    exact decide_eq_decide.mpr
      (not_lt_iff_le.symm.trans (not_congr (Constraint.min_lt_movedBy h _)))

theorem size_at (h : c.Regular) (flow : Flow) (level next : ℚ) :
    (if (Track.at flow level c).reaches (number (c.movedBy flow (next * c.weight flow))) flow then
        (Track.at flow level c).bound flow
      else number (c.movedBy flow (next * c.weight flow))) = number (c.levelSize flow next) := by
  cases flow with
  | surplus =>
    rw [Constraint.levelSize, Constraint.drawn, Constraint.movedBy_cap_surplus, ← ite_le_number]
    simp only [reaches, decide_eq_true_eq]
    rfl
  | deficit =>
    rw [Constraint.levelSize, Constraint.drawn, Constraint.movedBy_cap_deficit, ← ite_number_le,
      ← h.min_eq]
    simp only [reaches, decide_eq_true_eq]
    rfl

theorem moved_at (c : Constraint Exact) (flow : Flow) (level next : ℚ) :
    (Track.at flow level c).moved (number (c.levelSize flow next)) flow =
      number (c.drawn flow next - c.drawn flow level) := by
  cases flow with
  | surplus => exact congrArg number (add_sub_add_left_eq_sub ..)
  | deficit => exact congrArg number (sub_sub_sub_cancel_left ..)

theorem withRest_at (h : c.Regular) (flow : Flow) (level rest : ℚ) :
    (Track.at flow level c).withRest (number rest) flow =
      number (c.movedBy flow ((c.room flow).cap (c.drawn flow level + rest))) := by
  cases flow with
  | surplus =>
    rw [Constraint.movedBy_cap_surplus, ← lesser_number, Constraint.movedBy, ← add_assoc]
    rfl
  | deficit =>
    rw [Constraint.movedBy_cap_deficit, max_comm, ← greater_number, ← h.min_eq,
      Constraint.movedBy, ← sub_sub]
    rfl

end Track

variable {flow : Flow} {level : ℚ} {constraints : List (Constraint Exact)}

def drawnBy (flow : Flow) (constraints : List (Constraint Exact)) (level : ℚ) : ℚ :=
  (constraints.map (Constraint.drawn flow level)).sum

def roomyWeight (flow : Flow) (constraints : List (Constraint Exact)) (level : ℚ) : ℚ :=
  ((constraints.filter (Constraint.roomAt flow level)).map (Constraint.weight flow)).sum

/-- A round takes all tracks from one level to the next, and uses up what that draws. -/
theorem pass_at (h : ∀ c ∈ constraints, c.Regular) (flow : Flow) (amount weight rest : ℚ)
    (hle : level ≤ level + amount / weight) :
    Round.pass flow (number amount) (number weight) (constraints.map (Track.at flow level))
        (number rest) =
      ⟨constraints.map (Track.at flow (level + amount / weight)),
        number (rest - (drawnBy flow constraints (level + amount / weight) -
          drawnBy flow constraints level)),
        constraints.any fun c => c.roomAt flow level && !c.roomAt flow (level + amount / weight)⟩ := by
  induction constraints generalizing rest with
  | nil => simp [Round.pass, drawnBy]
  | cons c others ih =>
    have hc := h c List.mem_cons_self
    have hothers := ih fun d hd => h d (List.mem_cons_of_mem _ hd)
    rw [List.map_cons, Round.pass, Track.hasRoom_at hc]
    cases hroom : c.roomAt flow level with
    | true =>
      simp only [if_true, Track.target_at hc hroom, Track.size_at hc]
      rw [Track.reaches_at hc hroom, Track.moved_at, number_sub, hothers]
      simp only [drawnBy, List.map_cons, List.sum_cons, List.any_cons, hroom, Bool.true_and]
      congr 2
      ring
    | false =>
      -- The track is left out, and the next level does not move it either.
      have hstill := Constraint.drawn_of_noRoom hc hle hroom
      have hsame : Track.at flow level c = Track.at flow (level + amount / weight) c := by
        rw [Track.at, Track.at, Constraint.levelSize, Constraint.levelSize, hstill]
      simp only [Bool.false_eq_true, if_false, hothers]
      simp only [drawnBy, List.map_cons, List.sum_cons, List.any_cons, hroom, Bool.false_and,
        Bool.false_or, hstill, hsame, add_sub_add_left_eq_sub]

theorem roomyWeight_pos (hroom : constraints.any (Constraint.roomAt flow level) = true) :
    0 < roomyWeight flow constraints level := by
  obtain ⟨c, hc, hcroom⟩ := List.any_eq_true.mp hroom
  refine List.sum_pos _ (fun weight hweight => ?_) ?_
  · obtain ⟨d, hd, rfl⟩ := List.mem_map.mp hweight
    exact (Constraint.roomAt_eq_true.mp (List.mem_filter.mp hd).2).1
  · exact List.ne_nil_of_mem (List.mem_map_of_mem (List.mem_filter.mpr ⟨hc, hcroom⟩))

theorem next_at (h : ∀ c ∈ constraints, c.Regular) (flow : Flow) (level amount : ℚ) :
    Round.next? flow (constraints.map (Track.at flow level)) (number amount) =
      if constraints.any (Constraint.roomAt flow level) then
        some (Round.pass flow (number amount) (number (roomyWeight flow constraints level))
          (constraints.map (Track.at flow level)) (number amount))
      else none := by
  have hactive : (constraints.map (Track.at flow level)).filter (Track.hasRoom flow) =
      (constraints.filter (Constraint.roomAt flow level)).map (Track.at flow level) := by
    rw [List.filter_map]
    refine congrArg _ (List.filter_congr fun c hc => ?_)
    exact Track.hasRoom_at (h c hc) flow level
  have hweight : Scalar.total (((constraints.filter (Constraint.roomAt flow level)).map
      (Track.at flow level)).map (Track.weight · flow)) =
        number (roomyWeight flow constraints level) := by
    rw [roomyWeight, ← total_number, List.map_map, List.map_map]
    refine congrArg _ (List.map_congr_left fun c hc => ?_)
    exact Track.weight_at (h c (List.mem_filter.mp hc).1) flow level
  simp only [Round.next?, hactive, hweight]
  cases hroom : constraints.any (Constraint.roomAt flow level) with
  | true =>
    rw [if_neg, if_pos rfl]
    rw [Bool.or_eq_true, not_or, zero_eq, decide_eq_true_iff, number_le_number, not_le]
    refine ⟨?_, roomyWeight_pos hroom⟩
    obtain ⟨c, hc, hcroom⟩ := List.any_eq_true.mp hroom
    rw [List.isEmpty_iff]
    exact List.ne_nil_of_mem (List.mem_map_of_mem (List.mem_filter.mpr ⟨hc, hcroom⟩))
  | false =>
    rw [if_pos, if_neg Bool.false_ne_true]
    have hnone : constraints.filter (Constraint.roomAt flow level) = [] :=
      List.filter_eq_nil_iff.mpr fun c hc => by
        simpa using List.any_eq_false.mp hroom c hc
    rw [hnone]
    rfl

/-- A rise of the level draws no more than the weight of the tracks that had room. -/
theorem drawnBy_sub_le (h : ∀ c ∈ constraints, c.Regular) (flow : Flow) {next : ℚ}
    (hle : level ≤ next) : drawnBy flow constraints next - drawnBy flow constraints level ≤
      (next - level) * roomyWeight flow constraints level := by
  induction constraints with
  | nil => simp [drawnBy, roomyWeight]
  | cons c others ih =>
    have hc := h c List.mem_cons_self
    have hothers := ih fun d hd => h d (List.mem_cons_of_mem _ hd)
    simp only [drawnBy, roomyWeight, List.map_cons, List.sum_cons] at hothers ⊢
    cases hroom : c.roomAt flow level with
    | true =>
      rw [List.filter_cons_of_pos hroom, List.map_cons, List.sum_cons]
      have := Constraint.drawn_sub_le hc flow hle
      linarith
    | false =>
      rw [List.filter_cons_of_neg (by simp [hroom])]
      have := Constraint.drawn_of_noRoom hc hle hroom
      linarith

theorem drawnBy_sub_eq (h : ∀ c ∈ constraints, c.Regular) {next : ℚ} (hle : level ≤ next)
    (hroom : ∀ c ∈ constraints, c.roomAt flow level = true → c.roomAt flow next = true) :
    drawnBy flow constraints next - drawnBy flow constraints level =
      (next - level) * roomyWeight flow constraints level := by
  induction constraints with
  | nil => simp [drawnBy, roomyWeight]
  | cons c others ih =>
    have hc := h c List.mem_cons_self
    have hothers := ih (fun d hd => h d (List.mem_cons_of_mem _ hd))
      fun d hd => hroom d (List.mem_cons_of_mem _ hd)
    simp only [drawnBy, roomyWeight, List.map_cons, List.sum_cons] at hothers ⊢
    cases hcroom : c.roomAt flow level with
    | true =>
      rw [List.filter_cons_of_pos hcroom, List.map_cons, List.sum_cons,
        Constraint.drawn_of_room hcroom,
        Constraint.drawn_of_room (hroom c List.mem_cons_self hcroom)]
      linarith
    | false =>
      rw [List.filter_cons_of_neg (by simp [hcroom])]
      have := Constraint.drawn_of_noRoom hc hle hcroom
      linarith

def roomyCount (flow : Flow) (constraints : List (Constraint Exact)) (level : ℚ) : Nat :=
  (constraints.filter (Constraint.roomAt flow level)).length

/-- Room that is lost does not come back, so that there are fewer tracks with room if one lost
    its own. -/
theorem roomyCount_lt {next : ℚ} (hle : level ≤ next)
    (hhit : constraints.any (fun c => c.roomAt flow level && !c.roomAt flow next) = true) :
    roomyCount flow constraints next < roomyCount flow constraints level := by
  have hfilter : constraints.filter (Constraint.roomAt flow next) =
      (constraints.filter (Constraint.roomAt flow level)).filter (Constraint.roomAt flow next) := by
    rw [List.filter_filter]
    refine List.filter_congr fun c _ => ?_
    cases hnext : c.roomAt flow next with
    | true => rw [Constraint.roomAt_of_le hle hnext]; rfl
    | false => rfl
  obtain ⟨c, hc, hlost⟩ := List.any_eq_true.mp hhit
  rw [Bool.and_eq_true, Bool.not_eq_true'] at hlost
  rw [roomyCount, hfilter]
  exact List.length_filter_lt_length_iff_exists.mpr
    ⟨c, List.mem_filter.mpr ⟨hc, hlost.1⟩, by simp [hlost.2]⟩

/-- One round raises the level. It uses up the amount, or a track loses its room. -/
theorem round_at (h : ∀ c ∈ constraints, c.Regular)
    (hroom : constraints.any (Constraint.roomAt flow level) = true) {amount : ℚ}
    (hamount : 0 ≤ amount) : ∃ next rest hit, level ≤ next ∧
      Round.next? flow (constraints.map (Track.at flow level)) (number amount) =
        some ⟨constraints.map (Track.at flow next), number rest, hit⟩ ∧
      rest = amount - (drawnBy flow constraints next - drawnBy flow constraints level) ∧
      0 ≤ rest ∧ (hit = false → rest = 0) ∧
      (hit = true → roomyCount flow constraints next < roomyCount flow constraints level) := by
  have hweight := roomyWeight_pos hroom
  obtain ⟨next, hnext⟩ : ∃ next, next = level + amount / roomyWeight flow constraints level :=
    ⟨_, rfl⟩
  have hle : level ≤ next := by
    rw [hnext]
    exact le_add_of_nonneg_right (div_nonneg hamount hweight.le)
  have hshare : (next - level) * roomyWeight flow constraints level = amount := by
    rw [hnext, add_sub_cancel_left, div_mul_cancel₀ _ hweight.ne']
  have hdrawn := drawnBy_sub_le h flow hle
  have hpass := pass_at h flow amount (roomyWeight flow constraints level) amount (hnext ▸ hle)
  rw [← hnext] at hpass
  refine ⟨next, _, _, hle, by rw [next_at h, if_pos hroom, hpass], rfl, by linarith, ?_, ?_⟩
  · -- Where no track loses its room, all of the amount is drawn.
    intro hhit
    have hkeep : ∀ c ∈ constraints, c.roomAt flow level = true → c.roomAt flow next = true := by
      intro c hc hcroom
      simpa [hcroom] using List.any_eq_false.mp hhit c hc
    have heq := drawnBy_sub_eq h hle hkeep
    linarith
  · exact fun hhit => roomyCount_lt hle hhit

theorem giveRest_noRoom (h : ∀ c ∈ constraints, c.Regular) (rest : ℚ)
    (hroom : constraints.any (Constraint.roomAt flow level) = false) :
    giveRest flow (number rest) (constraints.map (Track.at flow level)) =
      constraints.map (Track.at flow level) := by
  induction constraints with
  | nil => rfl
  | cons c others ih =>
    rw [List.any_cons, Bool.or_eq_false_iff] at hroom
    rw [List.map_cons, giveRest, Track.hasRoom_at (h c List.mem_cons_self), hroom.1,
      if_neg Bool.false_ne_true, ih (fun d hd => h d (List.mem_cons_of_mem _ hd)) hroom.2]

theorem giveRest_zero (h : ∀ c ∈ constraints, c.Regular) (flow : Flow) (level : ℚ) :
    giveRest flow (number 0) (constraints.map (Track.at flow level)) =
      constraints.map (Track.at flow level) := by
  induction constraints with
  | nil => rfl
  | cons c others ih =>
    have hc := h c List.mem_cons_self
    have hdrawn : (c.room flow).cap (c.drawn flow level + 0) = c.drawn flow level := by
      rw [add_zero]
      exact cap_eq_self (cap_le _ _)
    rw [List.map_cons, giveRest, Track.withRest_at hc, hdrawn,
      ih fun d hd => h d (List.mem_cons_of_mem _ hd)]
    exact ite_self _

theorem settled_at (h : ∀ c ∈ constraints, c.Regular) {round : Round Exact} {rest : ℚ}
    (htracks : round.tracks = constraints.map (Track.at flow level))
    (hround : round.rest = number rest) (hrest : 0 ≤ rest) :
    round.settled flow = giveRest flow (number rest) (constraints.map (Track.at flow level)) := by
  rw [Round.settled, hround, htracks, zero_eq]
  rcases hrest.eq_or_lt with rfl | hpos
  · rw [giveRest_zero h, ite_self]
  · exact if_pos ((number_lt_number ..).mpr hpos)

/-- What is left over when the rounds end is hardly anything, or no track has room for it. -/
structure Settled (flow : Flow) (constraints : List (Constraint Exact)) (slack level : ℚ) :
    Prop where
  level_nonneg : 0 ≤ level
  nonneg : 0 ≤ slack - drawnBy flow constraints level
  done : slack - drawnBy flow constraints level ≤ 1 / 10000 ∨
    constraints.any (Constraint.roomAt flow level) = false

/-- The rounds raise the level until it is settled. -/
theorem shareOut_at (h : ∀ c ∈ constraints, c.Regular) {slack : ℚ} (rounds : Nat)
    (hlevel : 0 ≤ level) (hslack : 1 / 10000 < slack - drawnBy flow constraints level)
    (hrounds : roomyCount flow constraints level < rounds) :
    ∃ next, Settled flow constraints slack next ∧
      shareOut flow rounds (constraints.map (Track.at flow level))
          (number (slack - drawnBy flow constraints level)) =
        giveRest flow (number (slack - drawnBy flow constraints next))
          (constraints.map (Track.at flow next)) := by
  -- Fewer tracks have room after each round that is not the last.
  induction rounds generalizing level with
  | zero => exact absurd hrounds (Nat.not_lt_zero _)
  | succ rounds ih =>
    rw [shareOut]
    cases hroom : constraints.any (Constraint.roomAt flow level) with
    | false =>
      refine ⟨level, ⟨hlevel, by linarith, .inr hroom⟩, ?_⟩
      rw [giveRest_noRoom h _ hroom, next_at h, hroom]
      rfl
    | true =>
      have hamount : 0 ≤ slack - drawnBy flow constraints level := by linarith
      obtain ⟨next, rest, hit, hle, hround, hrest, hnonneg, hnoHit, hhit⟩ :=
        round_at h hroom hamount
      have hleft : rest = slack - drawnBy flow constraints next := by linarith
      have hnext : 0 ≤ next := hlevel.trans hle
      rw [hround]
      dsimp only
      cases hlast : (⟨constraints.map (Track.at flow next), number rest, hit⟩ :
          Round Exact).isLast with
      | true =>
        refine ⟨next, ⟨hnext, hleft ▸ hnonneg, .inl ?_⟩, ?_⟩
        · rw [Round.isLast, Bool.or_eq_true, decide_eq_true_iff, tolerance_eq, number_le_number]
            at hlast
          rw [← hleft]
          rcases hlast with hfalse | hle
          · rw [hnoHit (by simpa using hfalse)]
            norm_num
          · exact hle
        · rw [if_pos rfl, ← hleft]
          exact settled_at h rfl rfl hnonneg
      | false =>
        rw [Round.isLast, Bool.or_eq_false_iff, decide_eq_false_iff_not, tolerance_eq,
          number_le_number, not_le] at hlast
        have hfewer := hhit (by simpa using hlast.1)
        rw [if_neg Bool.false_ne_true, hleft]
        exact ih hnext (hleft ▸ hlast.2) (by omega)

end RetainedScene
