import RetainedScene.Scene.Blueprint

/-!
# Scenes

A scene is a root component and the host that all generated components look things up in. It
changes by edits; one that would replace instances under a walk is refused and changes nothing.
-/

set_option autoImplicit false

namespace RetainedScene

structure Scene where
  host : Color
  root : Component

inductive Edit
  | update (repeater : RepeaterAddress) (feed : Feed Blueprint)
  | clear (repeater : RepeaterAddress)
  /-- Changes the color that instances made from now on inherit. -/
  | setHost (color : Color)
  | setGeometry (owner : Place) (slot : Nat) (geometry : Rect)

namespace Scene

def ofBlueprint (b : Blueprint) : Scene :=
  ⟨.white, b.makeRoot .white⟩

def fill (s : Scene) (a : RepeaterAddress) (instances : List Component) : Except Fault Scene :=
  match s.root.repeater? a with
  | none => .error .indexOutOfRange
  | some r =>
    match r.fill instances with
    | .ok filled => .ok { s with root := s.root.modifyRepeaterAt a fun _ => filled }
    | .error fault => .error fault

def apply (s : Scene) : Edit → Except Fault Scene
  | .update a feed => s.fill a (Blueprint.makeInstances s.host feed)
  | .clear a => s.fill a []
  | .setHost host => .ok { s with host }
  | .setGeometry owner slot geometry =>
    match s.root.item? owner slot with
    | none => .error .indexOutOfRange
    | some _ => .ok { s with root := s.root.modifyItem owner slot (·.withGeometry geometry) }

/-- Edits in order, up to the first that is refused. -/
def applyAll (s : Scene) : List Edit → Scene × Option Fault
  | [] => (s, none)
  | edit :: rest =>
    match s.apply edit with
    | .ok changed => applyAll changed rest
    | .error fault => (s, some fault)

end Scene

def updateNote (before after : Nat) : String :=
  s!"{before} -> {after} instances"

end RetainedScene
