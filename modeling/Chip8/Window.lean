import Chip8.Display

namespace Chip8

structure Colour where
  red : UInt8
  green : UInt8
  blue : UInt8
  alpha : UInt8
deriving DecidableEq

namespace Colour

def off : Colour := ⟨0, 0, 0, 255⟩

def on : Colour := ⟨250, 250, 250, 255⟩

def ofValue? (value : Int) : Option Colour :=
  if value = 0 then some off else if value = 1 then some on else none

end Colour

-- A length in pixels of the window. There is none in a window without a scale.
abbrev Length := Option Int

inductive Command where
  | prepare
  | setMode (width height : Length) (flags depth : Nat)
  | caption (title : String)
  | fill (colour : Colour)
  | rect (left top width height : Length) (colour : Colour)
  | flip
deriving DecidableEq

inductive WindowError where
  | noColour (value : Int)
  | notOpen
deriving DecidableEq

def WindowError.message : WindowError → String
  | noColour value => toString value
  | notOpen        => "the window is not open"

structure Window where
  scale : Length
  width : Int
  height : Int
  isOpen : Bool

namespace Window

def hardwareSurface : Nat := 0x1

def doubleBuffer : Nat := 0x40000000

def depth : Nat := 8

def title : String := "CHIP8 Emulator"

def closed (scale : Length) (width height : Int) : Window where
  scale
  width
  height
  isOpen := false

def opened (w : Window) : Window :=
  { w with isOpen := true }

def squares (w : Window) (count : Int) : Length :=
  w.scale.map (count * ·)

def openCommands (w : Window) : List Command :=
  [.prepare,
   .setMode (w.squares w.width) (w.squares w.height) (hardwareSurface ||| doubleBuffer) depth,
   .caption title,
   .fill .off,
   .flip]

def paint (w : Window) (x y : Int) (colour : Colour) : Command :=
  .rect (w.squares x) (w.squares y) w.scale w.scale colour

def paintValue (w : Window) (x y value : Int) : Except WindowError Command :=
  match Colour.ofValue? value with
  | some colour => .ok (w.paint x y colour)
  | none        => .error (.noColour value)

def renderCommands (w : Window) (d : Display) : List Command :=
  .fill .off :: d.litPixels.map (fun (x, y) => w.paint x y .on) ++ [.flip]

def render (w : Window) (d : Display) : Except WindowError (List Command) :=
  if w.isOpen then .ok (w.renderCommands d) else .error .notOpen

end Window
end Chip8
