namespace Chip8

structure RandomSource where
  numbers : Nat → UInt8
  drawn : Nat

namespace RandomSource

def ofSequence (numbers : Nat → UInt8) : RandomSource where
  numbers := numbers
  drawn := 0

def cycle (bytes : Array UInt8) : RandomSource :=
  ofSequence fun k => bytes.getD (k % bytes.size) 0

def next (r : RandomSource) : UInt8 × RandomSource :=
  (r.numbers r.drawn, { r with drawn := r.drawn + 1 })

end RandomSource
end Chip8
