import Chip8.Fault

namespace Chip8

-- The fields overlap:
--
--     15-12    11-8   7-4   3-0
--     family    x      y     n
--                      [  nn  ]
--               [     nnn     ]
@[ext]
structure Fields where
  family : Fin 16
  x : Fin 16
  y : Fin 16
  n : Fin 16
  nn : UInt8
  nnn : Fin 4096
deriving DecidableEq

namespace Word

-- Words that are negative or too wide stand for their low sixteen bits in two's complement.
def nibble (unit word : Int) : Fin 16 :=
  ⟨(word / unit % 16).toNat, by omega⟩

def lowByte (word : Int) : UInt8 :=
  UInt8.ofNat (word % 256).toNat

def address (word : Int) : Fin 4096 :=
  ⟨(word % 4096).toNat, by omega⟩

def fields (word : Int) : Fields where
  family := nibble 0x1000 word
  x := nibble 0x100 word
  y := nibble 0x10 word
  n := nibble 1 word
  nn := lowByte word
  nnn := address word

def ofBytes (high low : UInt8) : UInt16 :=
  UInt16.ofNat (256 * high.toNat + low.toNat)

theorem toNat_ofBytes (high low : UInt8) : (ofBytes high low).toNat = 256 * high.toNat + low.toNat := by
  have := high.toNat_lt
  have := low.toNat_lt
  simp [ofBytes]
  omega

def fetch (bytes : Vector UInt8 size) (address : Int) : Except Fault UInt16 :=
  if h : 0 ≤ address ∧ address + 1 < size then
    .ok (ofBytes bytes[address.toNat] bytes[address.toNat + 1])
  else
    .error (.memoryAccess address)

end Word
end Chip8
