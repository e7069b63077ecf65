import Chip8.Machine.Basic
import Chip8.Notice

namespace Chip8

def tickDown (timer : UInt8) : UInt8 :=
  if timer = 0 then 0 else timer - 1

namespace Machine

def toneEnds (m : Machine) : Bool :=
  m.sound == 1

def tick (m : Machine) : Machine :=
  { m with
    delay := tickDown m.delay
    sound := tickDown m.sound
    speaker := if m.toneEnds then m.speaker.map (· + 1) else m.speaker }

def tickNotices (m : Machine) : List Notice :=
  if m.toneEnds then [.toneEnded] else []

end Machine
end Chip8
