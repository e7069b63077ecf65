import Chip8.Fault

namespace Chip8

inductive Level where
  | debug
  | info
  | warning
  | error
deriving DecidableEq

def Level.rank : Level → Nat
  | debug   => 0
  | info    => 1
  | warning => 2
  | error   => 3

def Level.name : Level → String
  | debug   => "DEBUG"
  | info    => "INFO"
  | warning => "WARNING"
  | error   => "ERROR"

inductive Notice where
  | loaded (size start : Nat)
  | skipped (f : Fault) (pc : Int)
  | stackFault (f : Fault)
  | memoryFault (f : Fault) (pc : Int)
  | registers (dump : String)
  | toneEnded
  | beep
  | notLoaded (rom reason : String)
  | halting (f : Fault)

namespace Notice

def level : Notice → Level
  | loaded ..      => .info
  | skipped ..     => .warning
  | stackFault ..  => .error
  | memoryFault .. => .error
  | registers ..   => .debug
  | toneEnded      => .debug
  | beep           => .info
  | notLoaded ..   => .error
  | halting ..     => .error

def text : Notice → String
  | loaded size start    => "Loaded " ++ toString size ++ " byte program at " ++ Hex.zeroPadded 4 start
  | skipped f pc         => f.message ++ " at " ++ Hex.zeroPadded 4 pc
  | stackFault f         => f.message
  | memoryFault f pc     => f.message ++ " at " ++ Hex.zeroPadded 4 pc
  | registers dump       => "CPU state at fault:\n" ++ dump
  | toneEnded            => "Sound timer expired"
  | beep                 => "BEEP!"
  | notLoaded rom reason => "Could not load " ++ rom ++ ": " ++ reason
  | halting f            => "Halting: " ++ f.message

def atLeast (threshold : Level) (notices : List Notice) : List Notice :=
  notices.filter fun n => threshold.rank ≤ n.level.rank

end Notice
end Chip8
