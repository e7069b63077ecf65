import Chip8.Memory
import Chip8.Instruction
import Chip8.RandomSource
import Chip8.Sprite

namespace Chip8

abbrev Registers := Vector UInt8 16

-- Program counter, index register and stack pointer can be set to anything. Only a fetch, a memory access, a call or
-- a return finds out.
@[ext]
structure Machine where
  memory : Memory
  v : Registers
  index : Int
  pc : Int
  -- The number of return addresses on the stack.
  sp : Int
  stack : Array Int
  delay : UInt8
  sound : UInt8
  keys : Vector Bool 16
  display : Display
  edge : EdgeRule
  word : Int
  draw : Bool
  random : RandomSource
  speaker : Option Nat

inductive BuildError where
  | display (e : DisplayError)
  | stackTooSmall
  | stackTooLarge (e : StorageError)
deriving DecidableEq

structure Build where
  room : Nat
  width : Int := 64
  height : Int := 32
  edge : EdgeRule := .clip
  stackSize : Int := 16
  random : RandomSource
  speaker : Bool := false

namespace Machine

def flag : Register := 0xF

def minStackSize : Nat := 16

def frameSize : Nat := 8

def powerOn (display : Display) (edge : EdgeRule) (stackSize : Nat) (random : RandomSource)
    (speaker : Option Nat) : Machine where
  memory := Memory.initial
  v := Vector.replicate 16 0
  index := 0
  pc := Memory.programStart
  sp := 0
  stack := Array.replicate stackSize 0
  delay := 0
  sound := 0
  keys := Vector.replicate 16 false
  display := display.clear
  edge
  word := 0
  draw := false
  random
  speaker

-- The memory before the program area, the random bytes already taken and the beeps already given stay as they are.
def reset (m : Machine) : Machine where
  memory := m.memory.clearPrograms
  v := Vector.replicate 16 0
  index := 0
  pc := Memory.programStart
  sp := 0
  stack := Array.replicate m.stack.size 0
  delay := 0
  sound := 0
  keys := Vector.replicate 16 false
  display := m.display.clear
  edge := m.edge
  word := 0
  draw := false
  random := m.random
  speaker := m.speaker

def beeps (m : Machine) : Nat :=
  m.speaker.getD 0

end Machine

def BuildError.message : BuildError → String
  | display e       => e.message
  | stackTooSmall   => "Stack must hold at least " ++ toString Machine.minStackSize ++ " frames"
  | stackTooLarge e => e.message

def Build.machine (b : Build) : Except BuildError Machine := do
  let display ← (Display.blank b.room b.width b.height).mapError .display
  if b.stackSize < Machine.minStackSize then
    .error .stackTooSmall
  else
    (Storage.check b.room b.stackSize Machine.frameSize).mapError .stackTooLarge
    return .powerOn display b.edge b.stackSize.toNat b.random (if b.speaker then some 0 else none)

end Chip8
