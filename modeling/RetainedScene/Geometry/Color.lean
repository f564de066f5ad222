/-!
# Colors

Red, green, blue and opacity, each usually between zero and one.
-/

set_option autoImplicit false

namespace RetainedScene

structure Color where
  red : Float32
  green : Float32
  blue : Float32
  alpha : Float32
deriving DecidableEq, Inhabited

namespace Color

def transparent : Color := ⟨0, 0, 0, 0⟩

def black : Color := ⟨0, 0, 0, 1⟩

def white : Color := ⟨1, 1, 1, 1⟩

instance : BEq Color :=
  ⟨fun a b => a.red == b.red && a.green == b.green && a.blue == b.blue && a.alpha == b.alpha⟩

def channel (byte : UInt8) : Float32 :=
  Float32.ofNat byte.toNat / 255

/-- Unpacks `0xRRGGBBAA`. -/
def ofPacked (rgba : UInt32) : Color where
  red := channel (rgba >>> 24).toUInt8
  green := channel (rgba >>> 16).toUInt8
  blue := channel (rgba >>> 8).toUInt8
  alpha := channel rgba.toUInt8

def isFinite (c : Color) : Bool :=
  c.red.isFinite && c.green.isFinite && c.blue.isFinite && c.alpha.isFinite

def withAlpha (c : Color) (alpha : Float32) : Color :=
  { c with alpha }

end Color

end RetainedScene
