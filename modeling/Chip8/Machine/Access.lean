import Chip8.Machine.Basic

namespace Chip8

inductive WriteError where
  | outside (f : Fault)
  | notByte
deriving DecidableEq

def WriteError.message : WriteError → String
  | outside f => f.message
  | notByte   => "byte must be in range(0, 256)"

namespace Machine

def read (m : Machine) (address : Int) : Except Fault UInt8 :=
  m.memory.read address

def write (m : Machine) (address value : Int) : Except WriteError Machine :=
  match m.memory.write address (UInt8.ofNat value.toNat) with
  | .error f   => .error (.outside f)
  | .ok memory =>
    if 0 ≤ value ∧ value < 256 then .ok { m with memory } else .error .notByte

end Machine
end Chip8
