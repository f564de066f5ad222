import RetainedScene.Number.Binary32

/-!
# The shortest decimal of a binary32 number

A number is written with the fewest digits that still read back as the same number, and among
those with the digits that come nearest to it.
-/

set_option autoImplicit false

namespace RetainedScene.Decimal

open Binary32

/-- The decimal `digits · 10^exponent`. -/
structure Short where
  digits : Nat
  exponent : Int

/-- The numbers that read back as a given one, in halves of the unit of `Binary32.units`. The
    ends belong to it where the significand is even, because a tie rounds to an even one. -/
structure Interval where
  low : Nat
  value : Nat
  high : Nat
  closed : Bool

def Interval.ofPattern (pattern : Nat) : Interval where
  low := unitsOfPattern (pattern - 1) + unitsOfPattern pattern
  value := 2 * unitsOfPattern pattern
  high := unitsOfPattern pattern + unitsOfPattern (pattern + 1)
  closed := pattern % 2 == 0

/-- Is `num / den` halves of a unit inside? -/
def Interval.holds (i : Interval) (num den : Nat) : Bool :=
  if i.closed then i.low * den ≤ num && num ≤ i.high * den
  else i.low * den < num && num < i.high * den

/-- One of the two neighbours of the value among the multiples of `10^exponent`, if one of
    them reads back: the nearer one, and of two equally near ones the larger. -/
def Interval.onGrid (i : Interval) (exponent : Int) : Option Nat :=
  let step := Nat.pow 10 exponent.toNat <<< 150
  let scale := Nat.pow 10 (-exponent).toNat
  let down := i.value * scale / step
  let rest := i.value * scale % step
  match i.holds (down * step) scale, i.holds ((down + 1) * step) scale with
  | true, true => some (if 2 * rest < step then down else down + 1)
  | true, false => some down
  | false, true => some (down + 1)
  | false, false => none

/-- The first grid that holds a number which reads back, tried from `exponent` downwards. -/
def Interval.coarsest (i : Interval) : (tries : Nat) → (exponent : Int) → Option Short
  | 0, _ => none
  | tries + 1, exponent =>
    match i.onGrid exponent with
    | some digits => some ⟨digits, exponent⟩
    | none => i.coarsest tries (exponent - 1)

/-- Nothing for zero, which has no digits that are not zero. All other finite numbers lie
    below 10³⁹, and 10⁻⁴⁶ is finer than the unit. -/
def shortest (x : Float32) : Option Short :=
  if pattern x = 0 then none else (Interval.ofPattern (pattern x)).coarsest 86 39

/-- The digits with a point after the first `point` of them. -/
def positional (digits : String) (point : Int) : String :=
  let count := digits.length
  if point ≤ 0 then "0." ++ "".pushn '0' (-point).toNat ++ digits
  else if count ≤ point then digits ++ "".pushn '0' (point.toNat - count) ++ ".0"
  else (digits.take point.toNat).toString ++ "." ++ (digits.drop point.toNat).toString

def scientific (digits : String) (point : Int) : String :=
  let tail := (digits.drop 1).toString
  (digits.take 1).toString ++ (if tail.isEmpty then "" else "." ++ tail) ++ "e" ++ toString (point - 1)

def magnitudeText (x : Float32) : String :=
  match shortest x with
  | none => "0.0"
  | some short =>
    let digits := toString short.digits
    let point := digits.length + short.exponent
    if x < 1e-4 || 1e16 ≤ x then scientific digits point else positional digits point

/-- Positional from 10⁻⁴ up to 10¹⁶, with at least one digit after the point, and scientific
    beyond. -/
def text (x : Float32) : String :=
  if x.isNaN then "NaN"
  else
    (if isNegative x then "-" else "")
      ++ if x.isInf then "inf" else magnitudeText x.abs

end RetainedScene.Decimal
