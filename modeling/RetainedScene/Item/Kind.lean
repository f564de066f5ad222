/-!
# Kinds of items
-/

set_option autoImplicit false

namespace RetainedScene

inductive Kind
  | rectangle
  | text
  | image
  | path
  | touchArea
deriving DecidableEq, Repr, Inhabited

def Kind.name : Kind → String
  | .rectangle => "Rectangle"
  | .text => "Text"
  | .image => "Image"
  | .path => "Path"
  | .touchArea => "TouchArea"

def Kind.all : List Kind :=
  [.rectangle, .text, .image, .path, .touchArea]

def Kind.ofName? (name : String) : Option Kind :=
  Kind.all.find? (·.name == name)

end RetainedScene
