/-!
# Applications

An application may react to window events before the window does. One that does not say
otherwise goes on whatever happens.
-/

set_option autoImplicit false

namespace RetainedScene

inductive WindowEvent
  | close
  | destroyed
  | focus
  | redraw
  | occluded
  | resize
deriving DecidableEq, Repr

def WindowEvent.name : WindowEvent → String
  | .close => "close"
  | .destroyed => "destroyed"
  | .focus => "focus"
  | .redraw => "redraw"
  | .occluded => "occluded"
  | .resize => "resize"

def WindowEvent.all : List WindowEvent :=
  [.close, .destroyed, .focus, .redraw, .occluded, .resize]

def WindowEvent.ofName? (name : String) : Option WindowEvent :=
  WindowEvent.all.find? (·.name == name)

inductive Reaction
  | continue
  | exit
deriving DecidableEq, Repr

def Reaction.name : Reaction → String
  | .continue => "Continue"
  | .exit => "Exit"

structure Application where
  react : WindowEvent → Reaction := fun _ => .continue

end RetainedScene
