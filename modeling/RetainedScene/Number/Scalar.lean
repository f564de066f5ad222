/-!
# Numbers that sizes are measured in

The track solver only adds, subtracts, multiplies, divides and compares, so it is written once
for every number type that can do so. Comparisons may fail both ways, as they do with NaN.
-/

set_option autoImplicit false

namespace RetainedScene

class Scalar (α : Type) extends Add α, Sub α, Mul α, Div α, Neg α, LT α, LE α where
  zero : α
  /-- Space of at most this amount counts as shared out. -/
  tolerance : α
  isNaN : α → Bool
  isFinite : α → Bool
  decLt : DecidableLT α
  decLe : DecidableLE α

namespace Scalar

variable {α : Type} [Scalar α]

instance : DecidableLT α := decLt

instance : DecidableLE α := decLe

/-- The smaller of two numbers. A NaN gives way to the other operand, and of two that do not
    differ the second is kept. -/
def lesser (a b : α) : α :=
  if isNaN b then a else if a < b then a else b

/-- The larger of two numbers, with the rules of `lesser`. -/
def greater (a b : α) : α :=
  if isNaN b then a else if b < a then a else b

/-- Brought between two bounds that are in order; a NaN stays what it is. -/
def clamp (x low high : α) : α :=
  if x < low then low else if high < x then high else x

/-- Nothing where the bounds are out of order or one of them is NaN. -/
def clamp? (x low high : α) : Option α :=
  if low ≤ high then some (clamp x low high) else none

/-- Added from the first to the last. Starting from the first element keeps the sign of a sum
    of negative zeros. -/
def total : List α → α
  | [] => zero
  | x :: rest => rest.foldl (· + ·) x

end Scalar

instance : Scalar Float32 where
  zero := 0
  tolerance := 1e-4
  isNaN := Float32.isNaN
  isFinite := Float32.isFinite
  decLt := inferInstance
  decLe := inferInstance

end RetainedScene
