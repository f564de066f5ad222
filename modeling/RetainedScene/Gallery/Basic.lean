import RetainedScene.Scene.Census
import RetainedScene.Window.Settings

/-!
# The gallery

A component with a title, a grid of tiles and a ring of dots. The tiles come from a model of
names and colors, the dots from a bare count.
-/

set_option autoImplicit false

namespace RetainedScene

structure TileSpec where
  name : String
  accent : Color
  /-- Takes up two columns. -/
  wide : Bool
deriving DecidableEq

structure Tile where
  frame : Rectangle
  caption : Text
  wide : Bool

structure Gallery where
  background : Rectangle
  title : Text
  tiles : Repeater Tile
  ring : PathItem
  dots : Repeater Rectangle

namespace Gallery

def dotSize : Float32 := 14

def new (title : String) : Gallery where
  background := { color := .ofPacked 0x1e1c1aff }
  title := { text := title, color := .ofPacked 0xf2e6c9ff, fontSize := 28 }
  tiles := {}
  ring := { closed := true, stroke := .ofPacked 0x5c554bff }
  dots := {}

/-- Captions take the color of the gallery's title. -/
def makeTile (titleColor : Color) (_ : Nat) (d : TileSpec) : Tile where
  frame :=
    { color := d.accent.withAlpha 0.85, borderWidth := 1, borderColor := d.accent, radius := 6 }
  caption := { text := d.name, color := titleColor }
  wide := d.wide

/-- Shades go round every twelve dots. -/
def shade (index : Nat) : Float32 :=
  0.35 + 0.05 * Float32.ofNat (index % 12)

def makeDot (index : Nat) (_ : Unit) : Rectangle :=
  { color := ⟨shade index, shade index * 0.8, 0.3, 1⟩, radius := dotSize * 0.5 }

def refill (g : Gallery) (tiles : Model TileSpec) (dots : Nat) : Except Fault Gallery := do
  let tiles ← g.tiles.update (makeTile g.title.color) tiles
  let dots ← g.dots.update makeDot (.ofCount dots)
  return { g with tiles, dots }

/-- Background, title, tiles, ring and dots, the first above all others. -/
def tree : List Node :=
  [.item 0 1 4, .item 1 5 0, .dynamic 0, .item 2 5 0, .dynamic 1]

end Gallery

def Tile.component (index : Nat) (t : Tile) : Component :=
  ⟨index, [.rectangle t.frame, .text t.caption], [.item 0 1 1, .item 1 2 0], []⟩

namespace Gallery

def dotComponent (index : Nat) (dot : Rectangle) : Component :=
  ⟨index, [.rectangle dot], [.item 0 1 0], []⟩

def component (g : Gallery) : Component where
  index := 0
  items := [.rectangle g.background, .text g.title, .path g.ring]
  tree := tree
  repeaters :=
    [⟨g.tiles.instances.mapIdx Tile.component, g.tiles.walks⟩,
      ⟨g.dots.instances.mapIdx dotComponent, g.dots.walks⟩]

def scene (g : Gallery) : Scene :=
  ⟨g.title.color, g.component⟩

def itemCount (g : Gallery) : Except Fault Nat :=
  g.scene.itemCount []

def sights (g : Gallery) (start : Start) : Except Fault (List Sight) :=
  g.scene.sights [] start

def windowSettings (g : Gallery) : WindowSettings where
  title := g.title.text
  size := ⟨900, 560⟩
  minSize := some ⟨480, 320⟩
  background := g.background.color

end Gallery

end RetainedScene
