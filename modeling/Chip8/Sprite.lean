import Chip8.Display

namespace Chip8

inductive EdgeRule where
  | clip
  | wrap
deriving DecidableEq

def EdgeRule.place (rule : EdgeRule) (size coordinate : Int) : Except DisplayError (Option Int) :=
  if coordinate < size then
    .ok (some coordinate)
  else
    match rule with
    | clip => .ok none
    | wrap => if size = 0 then .error .zeroSize else .ok (some (coordinate.fmod size))

namespace Sprite

def columns (row : UInt8) : List Nat :=
  (List.range 8).filter fun c => row.toNat.testBit (7 - c)

def rowTargets (rule : EdgeRule) (width x y : Int) : List Nat → Except DisplayError (List (Int × Int))
  | [] => .ok []
  | c :: rest => do
    let placed ← rule.place width (x + c)
    let targets ← rowTargets rule width x y rest
    return placed.toList.map (·, y) ++ targets

-- The pixels that the set bits of a sprite at `(x, y)` fall on, row by row. A pixel occurs once for
-- every bit that falls on it.
def targets (rule : EdgeRule) (width height x y : Int) : List UInt8 → Except DisplayError (List (Int × Int))
  | [] => .ok []
  | row :: below => do
    let here ←
      match ← rule.place height y with
      | some y' => rowTargets rule width x y' (columns row)
      | none    => .ok []
    let rest ← targets rule width height x (y + 1) below
    return here ++ rest

structure Drawing where
  display : Display
  collision : Bool
  touched : Bool

def draw (rule : EdgeRule) (d : Display) (x y : Int) (rows : List UInt8) : Except DisplayError Drawing := do
  let points ← targets rule d.width d.height x y rows
  let (collision, display) ← d.flipAll points
  return { display, collision, touched := !points.isEmpty }

end Sprite
end Chip8
