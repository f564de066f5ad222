import RetainedScene.Number.Binary32

/-!
# Angles and points of the circle

Each function sums a series in whole numbers of 2⁻¹⁹² and rounds once, at the end, so what it
returns is the binary32 number nearest to the true value.
-/

set_option autoImplicit false

namespace RetainedScene.Circle

open Binary32

/-- Binary places that the series are summed to. -/
def places : Nat := 192

/-- The terms of Euler's series `arctan t · (1 + t²) / t = 1 + 2/3·u + (2·4)/(3·5)·u² + …` from
    term `n` on, where `u = t² / (1 + t²)`. For `t ≤ 1` a term is at most half of the one
    before it, so as many terms as there are places are enough. -/
def eulerTail (u : Nat) : (terms n term : Nat) → Nat
  | 0, _, _ => 0
  | terms + 1, n, term =>
    term + eulerTail u terms (n + 1) (term * (2 * n * u) / ((2 * n + 1) <<< places))

def eulerSum (u : Nat) : Nat :=
  eulerTail u places 1 (1 <<< places)

/-- `arctan (p / q)` as a numerator and a denominator, for `p ≤ q` and `0 < q`. -/
def slightTurn (p q : Nat) : Nat × Nat :=
  let square := p * p + q * q
  (p * q * eulerSum ((p * p) <<< places / square), square <<< places)

/-- A right angle in units of 2⁻¹⁹²: twice the arctangent of one, whose series has `u = 1/2`. -/
def rightAngle : Nat :=
  eulerSum (1 <<< (places - 1))

/-- Angle of the direction `(q, p)` in the first quadrant. -/
def firstQuadrant (p q : Nat) : Nat × Nat :=
  if p ≤ q then slightTurn p q
  else
    let (num, den) := slightTurn q p
    (rightAngle * den - num <<< places, den <<< places)

/-- A direction keeps its quadrant or axis when each infinite component counts as one and each
    finite one beside it as nothing. -/
def components (y x : Float32) : Nat × Nat :=
  if y.isInf || x.isInf then (if y.isInf then 1 else 0, if x.isInf then 1 else 0)
  else (units y, units x)

/-- Angle of the direction `(x, y)` from the first axis towards the second, in radians. A zero
    has a sign here too: the direction `(-0, 0)` is half a turn away from `(0, 0)`. -/
def angle (y x : Float32) : Float32 :=
  if x.isNaN || y.isNaN then 0 / 0
  else
    let (p, q) := components y x
    let (num, den) := if p = 0 then (0, 1) else firstQuadrant p q
    let turn :=
      if isNegative x then nearest ((2 * rightAngle * den - num <<< places) <<< 149) (den <<< places)
      else nearest (num <<< 149) den
    withSign (isNegative y) turn

/-- The alternating series `first - first·x²/(k·(k+1)) + …` whose factors count up by two from
    `k`, in units of 2⁻¹⁹². -/
def alternating (square : Nat) : (terms k : Nat) → Int → Int
  | 0, _, _ => 0
  | terms + 1, k, first =>
    first + alternating square terms (k + 2)
      (-(first * square / ((k * (k + 1)) <<< places : Nat)))

def fixedSquare (x : Float32) : Nat :=
  (units x * units x) <<< places >>> 298

def ofFixed (n : Int) : Float32 :=
  withSign (n < 0) (ofRatio n.natAbs (1 <<< places))

/-- Cosine of an angle of a few turns at most: the term count is enough for those. -/
def cosine (x : Float32) : Float32 :=
  ofFixed (alternating (fixedSquare x) places 1 (1 <<< places : Nat))

/-- Sine of an angle of a few turns at most. -/
def sine (x : Float32) : Float32 :=
  withSign (isNegative x)
    (ofFixed (alternating (fixedSquare x) places 2 ((units x <<< places >>> 149 : Nat) : Int)))

/-- Radians of a full turn. -/
def fullTurn : Float32 := Float32.ofBits 0x40c90fdb

/-- What points of a circle are made of. -/
structure Functions where
  cosine : Float32 → Float32
  sine : Float32 → Float32

def functions : Functions := ⟨cosine, sine⟩

end RetainedScene.Circle
