import Chip8.Machine.Basic
import Chip8.Text.Hex

namespace Chip8.Machine

def dumpRegister (m : Machine) (x : Register) : String :=
  "V" ++ Hex.zeroPadded 1 x.val ++ ": " ++ Hex.rightAligned 2 (m.v.get x).toNat

def dumpLines (m : Machine) : List String :=
  ["PC: " ++ Hex.rightAligned 4 m.pc ++ "  OP: " ++ Hex.rightAligned 4 m.word]
  ++ (List.finRange 16).map m.dumpRegister
  ++ ["I: " ++ Hex.rightAligned 4 m.index,
      "SP: " ++ Hex.rightAligned 1 m.sp,
      "DT: " ++ Hex.rightAligned 2 m.delay.toNat ++ "  ST: " ++ Hex.rightAligned 2 m.sound.toNat]

def dump (m : Machine) : String :=
  String.join (m.dumpLines.map (· ++ "\n"))

end Chip8.Machine
