import Chip8.Storage

namespace Chip8

inductive DisplayError where
  | noRoom (e : StorageError)
  | negativeSize
  | zeroSize
  | offDisplay (x y : Int)
deriving DecidableEq

def DisplayError.message : DisplayError → String
  | noRoom e       => e.message
  | negativeSize   => "negative count"
  | zeroSize       => "no pixels to wrap around to"
  | offDisplay x y => "Pixel (" ++ toString x ++ ", " ++ toString y ++ ") is off the display"

-- A display exists whenever the product of its sizes is not negative and there is room for that many pixels. With
-- two negative sizes it stores pixels that no coordinate reaches.
@[ext]
structure Display where
  width : Int
  height : Int
  pixels : Array Bool
  size_eq : (pixels.size : Int) = width * height

namespace Display

-- The room is looked for before the number of pixels is found to be negative.
def blank (room : Nat) (width height : Int) : Except DisplayError Display :=
  match Storage.check room (width * height) 1 with
  | .error e => .error (.noRoom e)
  | .ok () =>
    if h : 0 ≤ width * height then
      .ok {
        width
        height
        pixels := Array.replicate (width * height).toNat false
        size_eq := by simp [Int.toNat_of_nonneg h]
      }
    else
      .error .negativeSize

def standard : Display where
  width := 64
  height := 32
  pixels := Array.replicate 2048 false
  size_eq := by simp

def Has (d : Display) (x y : Int) : Prop :=
  (0 ≤ x ∧ x < d.width) ∧ (0 ≤ y ∧ y < d.height)

instance (d : Display) (x y : Int) : Decidable (d.Has x y) :=
  inferInstanceAs (Decidable (_ ∧ _))

theorem Has.bounds {d : Display} {x y : Int} (h : d.Has x y) :
    0 ≤ y * d.width + x ∧ y * d.width + x < d.pixels.size := by
  obtain ⟨⟨_, _⟩, _, _⟩ := h
  have low : 0 ≤ y * d.width := Int.mul_nonneg (by omega) (by omega)
  have high : (y + 1) * d.width ≤ d.height * d.width :=
    Int.mul_le_mul_of_nonneg_right (by omega) (by omega)
  rw [d.size_eq, Int.mul_comm d.width]
  rw [Int.add_mul] at high
  omega

def position (d : Display) (x y : Int) (h : d.Has x y) : Fin d.pixels.size :=
  ⟨(y * d.width + x).toNat, by have := h.bounds; omega⟩

def get (d : Display) (x y : Int) : Except DisplayError Bool :=
  if h : d.Has x y then
    .ok d.pixels[d.position x y h]
  else
    .error (.offDisplay x y)

def flip (d : Display) (x y : Int) : Except DisplayError (Bool × Display) :=
  if h : d.Has x y then
    let i := d.position x y h
    .ok (d.pixels[i], { d with
      pixels := d.pixels.set i (!d.pixels[i])
      size_eq := by simp [d.size_eq] })
  else
    .error (.offDisplay x y)

def flipAll (d : Display) : List (Int × Int) → Except DisplayError (Bool × Display)
  | [] => .ok (false, d)
  | (x, y) :: rest => do
    let (wasOn, d) ← d.flip x y
    let (hit, d) ← d.flipAll rest
    return (wasOn || hit, d)

def clear (d : Display) : Display where
  width := d.width
  height := d.height
  pixels := Array.replicate d.pixels.size false
  size_eq := by simp [d.size_eq]

def row (d : Display) (y : Nat) : List Bool :=
  let start := y * d.width.toNat
  (d.pixels.extract start (start + d.width.toNat)).toList

def rows (d : Display) : List (List Bool) :=
  (List.range d.height.toNat).map d.row

def litPixels (d : Display) : List (Nat × Nat) :=
  d.rows.zipIdx.flatMap fun (row, y) => (row.zipIdx.filter (·.1)).map fun (_, x) => (x, y)

def litCount (d : Display) : Nat :=
  d.pixels.count true

def pixelChar (on : Bool) : Char :=
  if on then '#' else '.'

def rowChars (row : List Bool) : List Char :=
  row.map pixelChar

def chars (d : Display) : List Char :=
  ['\n'].intercalate (d.rows.map rowChars)

def text (d : Display) : String :=
  String.ofList d.chars

end Display
end Chip8
