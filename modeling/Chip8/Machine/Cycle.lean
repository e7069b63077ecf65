import Chip8.Machine.Dump
import Chip8.Machine.Execution
import Chip8.Machine.Timers

namespace Chip8

inductive Status where
  | normal
  | decodeFailure
  | stackFault
  | memoryFault
deriving DecidableEq

namespace Status

def name : Status → String
  | normal        => "normal"
  | decodeFailure => "decode-failure"
  | stackFault    => "stack-fault"
  | memoryFault   => "memory-fault"

def halts : Status → Bool
  | normal | decodeFailure  => false
  | stackFault | memoryFault => true

end Status

def Fault.status : Fault → Status
  | unknownWord _    => .decodeFailure
  | stackOverflow _  => .stackFault
  | stackUnderflow _ => .stackFault
  | memoryAccess _   => .memoryFault

@[ext]
structure Cycle where
  word : Option UInt16
  fault : Option Fault
  draw : Bool
  tone : Bool
deriving DecidableEq

def Cycle.status (c : Cycle) : Status :=
  match c.fault with
  | none   => .normal
  | some f => f.status

structure Turn where
  machine : Machine
  result : Except Crash Cycle
  notices : List Notice

namespace Machine

def settle (m : Machine) (start : Int) (f : Fault) : Machine :=
  match f.status with
  | .decodeFailure => m
  | _              => { m with pc := start }

def faultNotices (m : Machine) (start : Int) (f : Fault) : List Notice :=
  match f with
  | .unknownWord _                        => [.skipped f start]
  | .stackOverflow _ | .stackUnderflow _  => [.stackFault f, .registers m.dump]
  | .memoryAccess _                       => [.memoryFault f start, .registers m.dump]

def finish (m : Machine) (word : Option UInt16) (fault : Option Fault) (notices : List Notice) : Turn where
  machine := m.tick
  result := .ok { word, fault, draw := m.draw, tone := m.toneEnds }
  notices := notices ++ m.tickNotices

def fail (m : Machine) (start : Int) (word : Option UInt16) (f : Fault) : Turn :=
  let m := m.settle start f
  m.finish word (some f) (m.faultNotices start f)

-- A fault ends only the instruction, and the timers tick all the same. Only a crash leaves the cycle early.
def step (m : Machine) : Turn :=
  match Word.fetch m.memory.bytes m.pc with
  | .error f => { m with draw := false }.fail m.pc none f
  | .ok word =>
    match m.execute word.toNat with
    | .done m'    => m'.finish word none []
    | .fault f m' => m'.fail m.pc word f
    | .crash c m' => { machine := m', result := .error c, notices := [] }

end Machine
end Chip8
