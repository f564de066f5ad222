import RetainedScene.Fault
import RetainedScene.Layout.Constraint

/-!
# Sharing space among tracks

A row of tracks fills a given length. Every track starts at its base size. A surplus goes to
the tracks that stretch, in proportion to their stretch; a deficit is taken from the tracks in
proportion to their base. A track that reaches its bound stays there, and what it could not
take is shared out again in the next round. What rounding leaves over goes to the first track
that still has room.
-/

set_option autoImplicit false

namespace RetainedScene

open Scalar

variable {α : Type} [Scalar α]

inductive Flow
  | surplus
  | deficit
deriving DecidableEq, Repr

structure Track (α : Type) where
  constraint : Constraint α
  base : α
  size : α

namespace Track

def ofConstraint (c : Constraint α) : Except Fault (Track α) :=
  match c.base? with
  | some base => .ok ⟨c, base, base⟩
  | none => .error .clampBounds

def weight (t : Track α) : Flow → α
  | .surplus => t.constraint.stretch
  | .deficit => t.base

def bound (t : Track α) : Flow → α
  | .surplus => t.constraint.max
  | .deficit => t.constraint.min

def beforeBound (t : Track α) : Flow → Bool
  | .surplus => t.size < t.constraint.max
  | .deficit => t.constraint.min < t.size

def hasRoom (flow : Flow) (t : Track α) : Bool :=
  zero < t.weight flow && t.beforeBound flow

def target (t : Track α) (amount weight : α) : Flow → α
  | .surplus => t.size + amount * t.constraint.stretch / weight
  | .deficit => t.size - amount * t.base / weight

def reaches (t : Track α) (target : α) : Flow → Bool
  | .surplus => t.constraint.max ≤ target
  | .deficit => target ≤ t.constraint.min

def moved (t : Track α) (size : α) : Flow → α
  | .surplus => size - t.size
  | .deficit => t.size - size

def withRest (t : Track α) (rest : α) : Flow → α
  | .surplus => lesser (t.size + rest) t.constraint.max
  | .deficit => greater (t.size - rest) t.constraint.min

end Track

/-- Tracks after a round, what is left to share out, and whether a track reached its bound. -/
structure Round (α : Type) where
  tracks : List (Track α)
  rest : α
  hit : Bool

def Round.pass (flow : Flow) (amount weight : α) : List (Track α) → (rest : α) → Round α
  | [], rest => ⟨[], rest, false⟩
  | t :: ts, rest =>
    if t.hasRoom flow then
      let target := t.target amount weight flow
      let reached := t.reaches target flow
      let size := if reached then t.bound flow else target
      let later := pass flow amount weight ts (rest - t.moved size flow)
      ⟨{ t with size } :: later.tracks, later.rest, reached || later.hit⟩
    else
      let later := pass flow amount weight ts rest
      ⟨t :: later.tracks, later.rest, later.hit⟩

def Round.next? (flow : Flow) (tracks : List (Track α)) (amount : α) : Option (Round α) :=
  let active := tracks.filter (Track.hasRoom flow)
  let weight := total (active.map (Track.weight · flow))
  if active.isEmpty || weight ≤ zero then none
  else some (Round.pass flow amount weight tracks amount)

def Round.isLast (r : Round α) : Bool :=
  !r.hit || r.rest ≤ tolerance

def giveRest (flow : Flow) (rest : α) : List (Track α) → List (Track α)
  | [] => []
  | t :: ts =>
    if t.hasRoom flow then { t with size := t.withRest rest flow } :: ts
    else t :: giveRest flow rest ts

def Round.settled (flow : Flow) (r : Round α) : List (Track α) :=
  if zero < r.rest then giveRest flow r.rest r.tracks else r.tracks

/-- Rounds until one is the last or none is possible. -/
def shareOut (flow : Flow) : (rounds : Nat) → List (Track α) → (amount : α) → List (Track α)
  | 0, tracks, _ => tracks
  | rounds + 1, tracks, amount =>
    match Round.next? flow tracks amount with
    | none => tracks
    | some round => if round.isLast then round.settled flow
      else shareOut flow rounds round.tracks round.rest

/-- Sizes of tracks that fill `available`. Every round before the last brings a track to its
    bound for good, so one round more than there are tracks is never used up. -/
def fillTracks (constraints : List (Constraint α)) (available : α) : Except Fault (List α) := do
  let tracks ← constraints.mapM Track.ofConstraint
  let slack := available - total (tracks.map Track.size)
  let rounds := tracks.length + 1
  let solved :=
    if tolerance < slack then shareOut .surplus rounds tracks slack
    else if slack < -tolerance then shareOut .deficit rounds tracks (-slack)
    else tracks
  return solved.map Track.size

end RetainedScene
