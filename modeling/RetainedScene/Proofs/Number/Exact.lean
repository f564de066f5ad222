import Mathlib.Algebra.Order.Ring.Rat
import RetainedScene.Number.Scalar

/-!
# Exact numbers

Sizes read exactly: rational numbers, and infinity as a maximum that is never reached. Infinity
is only compared with, so that what arithmetic makes of it does not matter.
-/

set_option autoImplicit false

namespace RetainedScene

inductive Exact
  | number (value : ℚ)
  | infinite
deriving DecidableEq

namespace Exact

/-- Infinity has no value, and counts as zero. -/
def value : Exact → ℚ
  | number q => q
  | infinite => 0

def isFinite : Exact → Bool
  | number _ => true
  | infinite => false

def map₂ (op : ℚ → ℚ → ℚ) : Exact → Exact → Exact
  | number p, number q => number (op p q)
  | _, _ => infinite

def neg : Exact → Exact
  | number q => number (-q)
  | infinite => infinite

def lt : Exact → Exact → Bool
  | number p, number q => p < q
  | number _, infinite => true
  | infinite, _ => false

def le : Exact → Exact → Bool
  | number p, number q => p ≤ q
  | _, infinite => true
  | infinite, number _ => false

instance : Scalar Exact where
  add := map₂ (· + ·)
  sub := map₂ (· - ·)
  mul := map₂ (· * ·)
  div := map₂ (· / ·)
  neg := neg
  lt x y := lt x y
  le x y := le x y
  zero := number 0
  tolerance := number (1 / 10000)
  isNaN _ := false
  isFinite := isFinite
  decLt x y := inferInstanceAs (Decidable (lt x y = true))
  decLe x y := inferInstanceAs (Decidable (le x y = true))

def cap (x : ℚ) : Exact → ℚ
  | number limit => min x limit
  | infinite => x

section

variable (p q : ℚ)

@[simp]
theorem number_add : number p + number q = number (p + q) := rfl

@[simp]
theorem number_sub : number p - number q = number (p - q) := rfl

@[simp]
theorem number_mul : number p * number q = number (p * q) := rfl

@[simp]
theorem number_div : number p / number q = number (p / q) := rfl

@[simp]
theorem neg_number : -number p = number (-p) := rfl

@[simp]
theorem number_lt_number : number p < number q ↔ p < q := decide_eq_true_iff

@[simp]
theorem number_lt_infinite : number p < infinite := rfl

@[simp]
theorem number_le_number : number p ≤ number q ↔ p ≤ q := decide_eq_true_iff

@[simp]
theorem not_infinite_le_number : ¬ infinite ≤ number q := Bool.false_ne_true

@[simp]
theorem le_infinite (x : Exact) : x ≤ infinite := by
  cases x <;> rfl

@[simp]
theorem not_infinite_lt (x : Exact) : ¬ infinite < x := Bool.false_ne_true

end

theorem zero_eq : (Scalar.zero : Exact) = number 0 := rfl

theorem tolerance_eq : (Scalar.tolerance : Exact) = number (1 / 10000) := rfl

theorem not_lt_iff_le {x y : Exact} : ¬ x < y ↔ y ≤ x := by
  cases x <;> cases y <;> simp

theorem le_of_lt {x y : Exact} (h : x < y) : x ≤ y := by
  cases x with
  | infinite => exact absurd h (not_infinite_lt y)
  | number p =>
    cases y with
    | infinite => exact le_infinite _
    | number q => exact (number_le_number p q).mpr ((number_lt_number p q).mp h).le

theorem eq_number_of_isFinite {x : Exact} (h : Scalar.isFinite x = true) : x = number x.value := by
  cases x with
  | number q => rfl
  | infinite => cases h

theorem nonneg_of_not_lt {q : ℚ} (h : ¬ number q < Scalar.zero) : 0 ≤ q := by
  rwa [zero_eq, number_lt_number, not_lt] at h

theorem cap_le (x : ℚ) (limit : Exact) : number (cap x limit) ≤ limit := by
  cases limit with
  | infinite => rfl
  | number q => exact (number_le_number ..).mpr (min_le_right x q)

theorem cap_le_self (x : ℚ) (limit : Exact) : cap x limit ≤ x := by
  cases limit with
  | infinite => exact le_rfl
  | number q => exact min_le_left x q

theorem le_cap {x y : ℚ} {limit : Exact} (h : x ≤ y) (hlimit : number x ≤ limit) :
    x ≤ cap y limit := by
  cases limit with
  | infinite => exact h
  | number q => exact le_min h ((number_le_number ..).mp hlimit)

theorem cap_eq_self {x : ℚ} {limit : Exact} (h : number x ≤ limit) : cap x limit = x :=
  le_antisymm (cap_le_self x limit) (le_cap le_rfl h)

theorem number_cap {x : ℚ} {limit : Exact} (h : limit ≤ number x) :
    number (cap x limit) = limit := by
  cases limit with
  | infinite => exact absurd h (not_infinite_le_number x)
  | number q => rw [cap, min_eq_right ((number_le_number ..).mp h)]

theorem cap_lt_iff {x : ℚ} {limit : Exact} : number (cap x limit) < limit ↔ number x < limit := by
  cases limit with
  | infinite => exact Iff.rfl
  | number q =>
    rw [number_lt_number, number_lt_number, cap, min_lt_iff]
    exact or_iff_left (lt_irrefl q)

theorem ite_le_number (x : ℚ) (limit : Exact) :
    (if limit ≤ number x then limit else number x) = number (cap x limit) := by
  split_ifs with h
  · exact (number_cap h).symm
  · rw [cap_eq_self (le_of_lt (Classical.not_not.mp (mt not_lt_iff_le.mp h)))]

theorem ite_number_le (x low : ℚ) :
    (if number x ≤ number low then number low else number x) = number (max low x) := by
  split_ifs with h
  · rw [max_eq_left ((number_le_number ..).mp h)]
  · rw [max_eq_right (not_le.mp (mt (number_le_number ..).mpr h)).le]

/-- Below a limit a number grows by no more than it would without. -/
theorem cap_sub_le {x y : ℚ} (h : x ≤ y) (limit : Exact) :
    cap y limit - cap x limit ≤ y - x := by
  cases limit with
  | infinite => exact le_rfl
  | number q =>
    rw [cap, cap]
    rcases le_total x q with hx | hx
    · rw [min_eq_left hx]
      exact sub_le_sub_right (min_le_left y q) x
    · rw [min_eq_right hx, min_eq_right (hx.trans h), sub_self]
      exact sub_nonneg.mpr h

theorem lesser_number (x : ℚ) (limit : Exact) :
    Scalar.lesser (number x) limit = number (cap x limit) := by
  cases limit with
  | infinite => rfl
  | number q =>
    rw [Scalar.lesser, if_neg (by exact Bool.false_ne_true)]
    by_cases h : x < q
    · rw [if_pos ((number_lt_number x q).mpr h), cap, min_eq_left h.le]
    · rw [if_neg (mt (number_lt_number x q).mp h), cap, min_eq_right (not_lt.mp h)]

theorem greater_number (x y : ℚ) :
    Scalar.greater (number x) (number y) = number (max x y) := by
  rw [Scalar.greater, if_neg (by exact Bool.false_ne_true)]
  by_cases h : y < x
  · rw [if_pos ((number_lt_number y x).mpr h), max_eq_left h.le]
  · rw [if_neg (mt (number_lt_number y x).mp h), max_eq_right (not_lt.mp h)]

theorem add_assoc' (x y z : Exact) : x + y + z = x + (y + z) := by
  cases x with
  | infinite => rfl
  | number p =>
    cases y with
    | infinite => rfl
    | number q =>
      cases z with
      | infinite => rfl
      | number r => exact congrArg number (add_assoc p q r)

theorem add_zero' (x : Exact) : x + number 0 = x := by
  cases x with
  | infinite => rfl
  | number p => exact congrArg number (add_zero p)

theorem total_cons (x : Exact) (xs : List Exact) :
    Scalar.total (x :: xs) = x + Scalar.total xs := by
  have hfold : ∀ (xs : List Exact) (x y : Exact),
      xs.foldl (· + ·) (x + y) = x + xs.foldl (· + ·) y := by
    intro xs
    induction xs with
    | nil => exact fun _ _ => rfl
    | cons z rest ih =>
      intro x y
      rw [List.foldl_cons, List.foldl_cons, add_assoc', ih]
  cases xs with
  | nil => exact (add_zero' x).symm
  | cons y rest => exact hfold rest x y

theorem total_number (xs : List ℚ) : Scalar.total (xs.map number) = number xs.sum := by
  induction xs with
  | nil => rfl
  | cons x rest ih => rw [List.map_cons, total_cons, ih, number_add, List.sum_cons]

theorem sum_le_total {xs : List ℚ} {limits : List Exact}
    (h : List.Forall₂ (fun x limit => number x ≤ limit) xs limits) :
    number xs.sum ≤ Scalar.total limits := by
  induction h with
  | nil => exact (number_le_number ..).mpr le_rfl
  | @cons x limit xs limits hle _ ih =>
    rw [List.sum_cons, total_cons]
    cases limit with
    | infinite => exact le_infinite _
    | number q =>
      cases htotal : Scalar.total limits with
      | infinite => exact le_infinite _
      | number r =>
        rw [htotal, number_le_number] at ih
        exact (number_le_number ..).mpr (add_le_add ((number_le_number ..).mp hle) ih)

end Exact

end RetainedScene
