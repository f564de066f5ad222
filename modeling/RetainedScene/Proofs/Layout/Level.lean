import Mathlib.Algebra.Order.Group.MinMax
import Mathlib.Tactic.Linarith
import Mathlib.Tactic.Ring
import RetainedScene.Layout.Error
import RetainedScene.Layout.Tracks
import RetainedScene.Proofs.Number.Exact

/-!
# Levels

With exact numbers, tracks that share a surplus fill up to one level like vessels of different
widths, and a deficit drains them to one. All sizes follow from the level. A round raises it by
the amount for each unit of weight.
-/

set_option autoImplicit false

namespace RetainedScene

open Exact

namespace Constraint

def baseSize (c : Constraint Exact) : ℚ :=
  (c.base?.getD (number 0)).value

/-- What is known of a constraint that passes its checks. -/
structure Regular (c : Constraint Exact) : Prop where
  min_eq : c.min = number c.min.value
  stretch_eq : c.stretch = number c.stretch.value
  base_eq : c.base? = some (number c.baseSize)
  min_nonneg : 0 ≤ c.min.value
  stretch_nonneg : 0 ≤ c.stretch.value
  min_le_base : c.min.value ≤ c.baseSize
  base_le_max : number c.baseSize ≤ c.max

theorem base?_exact {low : ℚ} {high : Exact} (preferred : ℚ) (stretch : Exact)
    (h : number low ≤ high) :
    (⟨number low, high, number preferred, stretch⟩ : Constraint Exact).base? =
      some (number (high.cap (Max.max preferred low))) := by
  rw [base?, Scalar.clamp?, if_pos h, Scalar.clamp]
  dsimp only
  by_cases hlow : preferred < low
  · rw [if_pos ((number_lt_number ..).mpr hlow), max_eq_right hlow.le, cap_eq_self h]
  · rw [if_neg (mt (number_lt_number ..).mp hlow), max_eq_left (not_lt.mp hlow)]
    by_cases hhigh : high < number preferred
    · rw [if_pos hhigh, number_cap (Exact.le_of_lt hhigh)]
    · rw [if_neg hhigh, cap_eq_self (not_lt_iff_le.mp hhigh)]

theorem regular_of_flaw? {c : Constraint Exact} (h : c.flaw? = none) : c.Regular := by
  obtain ⟨low, high, preferred, stretch⟩ := c
  rw [flaw?] at h
  split_ifs at h with hfinite hmax hnegative hstretch hrange
  simp only [Bool.not_eq_true, Bool.not_eq_false', Bool.and_eq_true] at hfinite
  simp only [Bool.or_eq_true, decide_eq_true_eq, not_or] at hnegative
  obtain ⟨⟨hlow, hpreferred⟩, hstretched⟩ := hfinite
  obtain ⟨⟨hlow0, -⟩, -⟩ := hnegative
  dsimp only at *
  rw [eq_number_of_isFinite hlow] at hlow0 hrange ⊢
  rw [eq_number_of_isFinite hpreferred]
  rw [eq_number_of_isFinite hstretched] at hstretch ⊢
  have hordered : number low.value ≤ high := not_lt_iff_le.mp hrange
  have hbase := base?_exact preferred.value (number stretch.value) hordered
  have hsize : baseSize ⟨number low.value, high, number preferred.value, number stretch.value⟩ =
      high.cap (Max.max preferred.value low.value) := by
    rw [baseSize, hbase]
    rfl
  exact {
    min_eq := rfl
    stretch_eq := rfl
    base_eq := by rw [hsize, hbase]
    min_nonneg := nonneg_of_not_lt hlow0
    stretch_nonneg := nonneg_of_not_lt hstretch
    min_le_base := by
      rw [hsize]
      exact le_cap (le_max_right ..) hordered
    base_le_max := by
      rw [hsize]
      exact cap_le _ _ }

def weight (flow : Flow) (c : Constraint Exact) : ℚ :=
  match flow with
  | .surplus => c.stretch.value
  | .deficit => c.baseSize

/-- How far a track can move from its base. -/
def room (flow : Flow) (c : Constraint Exact) : Exact :=
  match flow with
  | .surplus => c.max - number c.baseSize
  | .deficit => number (c.baseSize - c.min.value)

def drawn (flow : Flow) (level : ℚ) (c : Constraint Exact) : ℚ :=
  (c.room flow).cap (level * c.weight flow)

def movedBy (flow : Flow) (distance : ℚ) (c : Constraint Exact) : ℚ :=
  match flow with
  | .surplus => c.baseSize + distance
  | .deficit => c.baseSize - distance

def levelSize (flow : Flow) (level : ℚ) (c : Constraint Exact) : ℚ :=
  c.movedBy flow (c.drawn flow level)

def roomAt (flow : Flow) (level : ℚ) (c : Constraint Exact) : Bool :=
  0 < c.weight flow && number (level * c.weight flow) < c.room flow

variable {flow : Flow} {level level' : ℚ} {c : Constraint Exact}

/-- Moving within the room there is, and staying below the maximum, are the same. -/
theorem movedBy_cap_surplus (distance : ℚ) (c : Constraint Exact) :
    c.movedBy .surplus ((c.room .surplus).cap distance) =
      c.max.cap (c.movedBy .surplus distance) := by
  rw [movedBy, movedBy, room]
  cases c.max with
  | infinite => rfl
  | number limit => rw [number_sub, cap, cap, ← min_add_add_left, add_sub_cancel]

theorem movedBy_cap_deficit (distance : ℚ) (c : Constraint Exact) :
    c.movedBy .deficit ((c.room .deficit).cap distance) =
      Max.max c.min.value (c.movedBy .deficit distance) := by
  rw [movedBy, movedBy, room, cap, ← max_sub_sub_left, sub_sub_cancel, max_comm]

theorem movedBy_lt_max (distance : ℚ) (c : Constraint Exact) :
    number (c.movedBy .surplus distance) < c.max ↔ number distance < c.room .surplus := by
  rw [movedBy, room]
  cases c.max with
  | infinite => exact ⟨fun _ => rfl, fun _ => rfl⟩
  | number limit => rw [number_sub, number_lt_number, number_lt_number, lt_sub_iff_add_lt']

theorem min_lt_movedBy (h : c.Regular) (distance : ℚ) :
    c.min < number (c.movedBy .deficit distance) ↔ number distance < c.room .deficit := by
  rw [h.min_eq, movedBy, room, number_lt_number, number_lt_number, lt_sub_comm]

theorem levelSize_surplus (level : ℚ) (c : Constraint Exact) :
    c.levelSize .surplus level = c.max.cap (c.baseSize + level * c.stretch.value) :=
  movedBy_cap_surplus (level * c.stretch.value) c

theorem levelSize_deficit (level : ℚ) (c : Constraint Exact) :
    c.levelSize .deficit level = Max.max c.min.value (c.baseSize * (1 - level)) := by
  rw [mul_one_sub, mul_comm c.baseSize]
  exact movedBy_cap_deficit (level * c.baseSize) c

theorem Regular.weight_nonneg (h : c.Regular) (flow : Flow) : 0 ≤ c.weight flow := by
  cases flow with
  | surplus => exact h.stretch_nonneg
  | deficit => exact h.min_nonneg.trans h.min_le_base

theorem Regular.room_nonneg (h : c.Regular) (flow : Flow) : number 0 ≤ c.room flow := by
  cases flow with
  | surplus =>
    have hle := h.base_le_max
    rw [room]
    cases hmax : c.max with
    | infinite => exact le_infinite _
    | number limit =>
      rw [hmax, number_le_number] at hle
      exact (number_le_number ..).mpr (sub_nonneg.mpr hle)
  | deficit => exact (number_le_number ..).mpr (sub_nonneg.mpr h.min_le_base)

theorem drawn_zero (h : c.Regular) (flow : Flow) : c.drawn flow 0 = 0 := by
  rw [drawn, zero_mul]
  exact cap_eq_self (h.room_nonneg flow)

/-- No more is drawn than the level rises for a weight. -/
theorem drawn_sub_le (h : c.Regular) (flow : Flow) (hle : level ≤ level') :
    c.drawn flow level' - c.drawn flow level ≤ (level' - level) * c.weight flow := by
  rw [sub_mul]
  exact cap_sub_le (mul_le_mul_of_nonneg_right hle (h.weight_nonneg flow)) _

theorem roomAt_eq_true : c.roomAt flow level = true ↔
    0 < c.weight flow ∧ number (level * c.weight flow) < c.room flow := by
  rw [roomAt, Bool.and_eq_true, decide_eq_true_iff, decide_eq_true_iff]

theorem roomAt_of_le (hle : level ≤ level') (hroom : c.roomAt flow level' = true) :
    c.roomAt flow level = true := by
  obtain ⟨hweight, hlt⟩ := roomAt_eq_true.mp hroom
  refine roomAt_eq_true.mpr ⟨hweight, ?_⟩
  have hmul := mul_le_mul_of_nonneg_right hle hweight.le
  cases hlimit : c.room flow with
  | infinite => rfl
  | number limit =>
    rw [hlimit, number_lt_number] at hlt
    exact (number_lt_number ..).mpr (hmul.trans_lt hlt)

theorem drawn_of_room (hroom : c.roomAt flow level = true) :
    c.drawn flow level = level * c.weight flow :=
  cap_eq_self (Exact.le_of_lt (roomAt_eq_true.mp hroom).2)

/-- Without room a track does not move any more. -/
theorem drawn_of_noRoom (h : c.Regular) (hle : level ≤ level')
    (hroom : c.roomAt flow level = false) : c.drawn flow level' = c.drawn flow level := by
  rcases (h.weight_nonneg flow).eq_or_lt with hzero | hpos
  · rw [drawn, drawn, ← hzero, mul_zero, mul_zero]
  · have hreached : c.room flow ≤ number (level * c.weight flow) :=
      not_lt_iff_le.mp fun hlt => Bool.false_ne_true
        (hroom.symm.trans (roomAt_eq_true.mpr ⟨hpos, hlt⟩))
    have hmul := mul_le_mul_of_nonneg_right hle hpos.le
    have hlater : c.room flow ≤ number (level' * c.weight flow) := by
      cases hlimit : c.room flow with
      | infinite => exact absurd (hlimit ▸ hreached) (not_infinite_le_number _)
      | number limit =>
        rw [hlimit, number_le_number] at hreached
        exact (number_le_number ..).mpr (hreached.trans hmul)
    exact Exact.number.inj ((number_cap hlater).trans (number_cap hreached).symm)

end Constraint

end RetainedScene
