import RetainedScene.Proofs.Layout.Upkeep
import RetainedScene.Proofs.Number.Monotone

/-!
# Moves of a track

A round and the rest that is left over move a track toward its bound, and not past it. Rounding may
let it stop early, but never turns it around.
-/

set_option autoImplicit false

namespace RetainedScene

open Scalar Binary32

/-- Going from `a` to `b` is to stay or to go with the flow. -/
def Flow.Onward : Flow → Float32 → Float32 → Prop
  | .surplus, a, b => a ≤ b
  | .deficit, a, b => b ≤ a

theorem Flow.Onward.refl (flow : Flow) {x : Float32} (hx : x.isNaN = false) : flow.Onward x x := by
  cases flow with
  | surplus => exact le_refl hx
  | deficit => exact le_refl hx

theorem Flow.Onward.refl_right {flow : Flow} {x y : Float32} (h : flow.Onward x y) :
    flow.Onward y y := by
  cases flow with
  | surplus => exact le_refl (le_iff_rank.mp h).2.1
  | deficit => exact le_refl (le_iff_rank.mp h).1

theorem Flow.Onward.trans {flow : Flow} {x y z : Float32} (hxy : flow.Onward x y)
    (hyz : flow.Onward y z) : flow.Onward x z := by
  cases flow with
  | surplus => exact le_trans hxy hyz
  | deficit => exact le_trans hyz hxy

theorem greater_cases (a : Float32) {b : Float32} (hb : b.isNaN = false) :
    b < a ∧ greater a b = a ∨ greater a b = b := by
  unfold greater
  split
  case isTrue hnan => exact absurd hnan (Bool.eq_false_iff.mp hb)
  case isFalse =>
    split
    case isTrue hlt => exact .inl ⟨hlt, rfl⟩
    case isFalse => exact .inr rfl

theorem lesser_cases (a : Float32) {b : Float32} (hb : b.isNaN = false) :
    a < b ∧ lesser a b = a ∨ lesser a b = b := by
  unfold lesser
  split
  case isTrue hnan => exact absurd hnan (Bool.eq_false_iff.mp hb)
  case isFalse =>
    split
    case isTrue hlt => exact .inl ⟨hlt, rfl⟩
    case isFalse => exact .inr rfl

namespace Track

variable {flow : Flow} {t : Track Float32} {amount weight rest : Float32}

theorem hasRoom_surplus (h : t.hasRoom .surplus = true) :
    0 < t.constraint.stretch ∧ t.size < t.constraint.max := by
  unfold hasRoom at h
  obtain ⟨hpos, hlt⟩ := (Bool.and_eq_true ..).mp h
  exact ⟨of_decide_eq_true hpos, of_decide_eq_true hlt⟩

theorem hasRoom_deficit (h : t.hasRoom .deficit = true) :
    0 < t.base ∧ t.constraint.min < t.size := by
  unfold hasRoom at h
  obtain ⟨hpos, hlt⟩ := (Bool.and_eq_true ..).mp h
  exact ⟨of_decide_eq_true hpos, of_decide_eq_true hlt⟩

theorem size_number (hroom : t.hasRoom flow = true) : t.size.isNaN = false := by
  cases flow with
  | surplus => exact (lt_iff_rank.mp (hasRoom_surplus hroom).2).1
  | deficit => exact (lt_iff_rank.mp (hasRoom_deficit hroom).2).2.1

/-- What is left over takes a track on, but not past its bound, also where sizes are infinite. -/
theorem withRest_between (hroom : t.hasRoom flow = true) (hrest : 0 < rest) :
    flow.Onward t.size (t.withRest rest flow) ∧
      flow.Onward (t.withRest rest flow) (t.bound flow) := by
  have hrest' : AtLeast rest 0 := atLeast_zero_iff.mpr (le_of_lt hrest)
  cases flow with
  | surplus =>
    have hlt := (hasRoom_surplus hroom).2
    obtain ⟨hsize, hmax, -⟩ := lt_iff_rank.mp hlt
    change t.size ≤ lesser (t.size + rest) t.constraint.max ∧
      lesser (t.size + rest) t.constraint.max ≤ t.constraint.max
    rcases lesser_cases (t.size + rest) hmax with ⟨hsum, heq⟩ | heq <;> rw [heq]
    · exact ⟨le_add_of_nonneg hsize hrest' (lt_iff_rank.mp hsum).1, le_of_lt hsum⟩
    · exact ⟨le_of_lt hlt, le_refl hmax⟩
  | deficit =>
    have hlt := (hasRoom_deficit hroom).2
    obtain ⟨hmin, hsize, -⟩ := lt_iff_rank.mp hlt
    change greater (t.size - rest) t.constraint.min ≤ t.size ∧
      t.constraint.min ≤ greater (t.size - rest) t.constraint.min
    rcases greater_cases (t.size - rest) hmin with ⟨hdiff, heq⟩ | heq <;> rw [heq]
    · exact ⟨sub_le_of_nonneg hsize hrest' (lt_iff_rank.mp hdiff).2.1, le_of_lt hdiff⟩
    · exact ⟨le_of_lt hlt, le_refl hmin⟩

/-- A share that is not negative takes a track on, but not past its bound. -/
theorem shared_between (hroom : t.hasRoom flow = true) (hfinite : t.size.isFinite = true)
    (hshare : AtLeast (amount * t.weight flow / weight) 0) :
    flow.Onward t.size (t.shared amount weight flow) ∧
      flow.Onward (t.shared amount weight flow) (t.bound flow) := by
  cases flow with
  | surplus =>
    have hlt := (hasRoom_surplus hroom).2
    obtain ⟨hsize, hmax, -⟩ := lt_iff_rank.mp hlt
    have htarget : AtLeast (t.target amount weight .surplus) (value t.size) :=
      (atLeast_value hfinite).add hshare (value_representable _) (by simp)
    unfold shared
    split_ifs with hreached
    · exact ⟨le_of_lt hlt, le_refl hmax⟩
    · refine ⟨(atMost_value hfinite).le htarget, ?_⟩
      exact le_of_lt (lt_of_not_le hmax htarget.isNaN fun hle => hreached (decide_eq_true hle))
  | deficit =>
    have hlt := (hasRoom_deficit hroom).2
    obtain ⟨hmin, hsize, -⟩ := lt_iff_rank.mp hlt
    have htarget : AtMost (t.target amount weight .deficit) (value t.size) :=
      (atMost_value hfinite).sub hshare (value_representable _) (by simp)
    unfold shared
    split_ifs with hreached
    · exact ⟨le_of_lt hlt, le_refl hmin⟩
    · refine ⟨htarget.le (atLeast_value hfinite), ?_⟩
      exact le_of_lt (lt_of_not_le htarget.isNaN hmin fun hle => hreached (decide_eq_true hle))

theorem moved_nonneg {size : Float32} (hfinite : t.size.isFinite = true)
    (h : flow.Onward t.size size) : AtLeast (t.moved size flow) 0 := by
  cases flow with
  | surplus =>
    exact ((atLeast_value hfinite).of_le h).sub (atMost_value hfinite) representable_zero (by simp)
  | deficit =>
    exact (atLeast_value hfinite).sub ((atMost_value hfinite).of_le h) representable_zero (by simp)

end Track

end RetainedScene
