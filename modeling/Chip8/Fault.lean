import Chip8.Text.Hex

namespace Chip8

inductive Fault where
  | unknownWord (word : Int)
  | stackOverflow (address : Int)
  | stackUnderflow (address : Int)
  -- The first address outside memory that was asked for.
  | memoryAccess (address : Int)
deriving DecidableEq

namespace Fault

def message : Fault → String
  | unknownWord word       => "Unknown op-code: " ++ Hex.zeroPadded 4 word
  | stackOverflow address  => "Stack overflow at " ++ Hex.zeroPadded 4 address
  | stackUnderflow address => "Stack underflow at " ++ Hex.zeroPadded 4 address
  | memoryAccess address   => "Memory access out of range: " ++ Hex.zeroPadded 4 address

end Fault
end Chip8
