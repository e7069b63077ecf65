import Chip8.Word

namespace Chip8

abbrev Register := Fin 16

inductive Operation where
  | copy
  | or
  | and
  | xor
  | add
  | subtract
  | shiftRight
  | subtractFrom
  | shiftLeft
deriving DecidableEq

inductive Condition where
  | equals (x : Register) (value : UInt8)
  | differs (x : Register) (value : UInt8)
  | same (x y : Register)
  | distinct (x y : Register)
  | keyDown (x : Register)
  | keyUp (x : Register)
deriving DecidableEq

inductive Instruction where
  | clear
  | ret
  | jump (target : Fin 4096)
  | call (target : Fin 4096)
  | skip (condition : Condition)
  | set (x : Register) (value : UInt8)
  | add (x : Register) (value : UInt8)
  | combine (op : Operation) (x y : Register)
  | setIndex (address : Fin 4096)
  | jumpFrom (base : Fin 4096)
  | random (x : Register) (mask : UInt8)
  | draw (x y : Register) (height : Fin 16)
  | readDelay (x : Register)
  | awaitKey (x : Register)
  | setDelay (x : Register)
  | setSound (x : Register)
  | addIndex (x : Register)
  | glyph (x : Register)
  | storeDecimal (x : Register)
  | store (x : Register)
  | load (x : Register)
deriving DecidableEq

namespace Instruction

def ofSystem? (f : Fields) : Option Instruction :=
  match f.nn with
  | 0xE0 => some .clear
  | 0xEE => some .ret
  | _    => none

def ofOperation? (f : Fields) : Option Instruction :=
  match f.n with
  | 0x0 => some (.combine .copy f.x f.y)
  | 0x1 => some (.combine .or f.x f.y)
  | 0x2 => some (.combine .and f.x f.y)
  | 0x3 => some (.combine .xor f.x f.y)
  | 0x4 => some (.combine .add f.x f.y)
  | 0x5 => some (.combine .subtract f.x f.y)
  | 0x6 => some (.combine .shiftRight f.x f.y)
  | 0x7 => some (.combine .subtractFrom f.x f.y)
  | 0xE => some (.combine .shiftLeft f.x f.y)
  | _   => none

def ofKeys? (f : Fields) : Option Instruction :=
  match f.nn with
  | 0x9E => some (.skip (.keyDown f.x))
  | 0xA1 => some (.skip (.keyUp f.x))
  | _    => none

def ofMisc? (f : Fields) : Option Instruction :=
  match f.nn with
  | 0x07 => some (.readDelay f.x)
  | 0x0A => some (.awaitKey f.x)
  | 0x15 => some (.setDelay f.x)
  | 0x18 => some (.setSound f.x)
  | 0x1E => some (.addIndex f.x)
  | 0x29 => some (.glyph f.x)
  | 0x33 => some (.storeDecimal f.x)
  | 0x55 => some (.store f.x)
  | 0x65 => some (.load f.x)
  | _    => none

-- Digits that a family does not look at are free.
def ofFields? (f : Fields) : Option Instruction :=
  match f.family with
  | 0x0 => ofSystem? f
  | 0x1 => some (.jump f.nnn)
  | 0x2 => some (.call f.nnn)
  | 0x3 => some (.skip (.equals f.x f.nn))
  | 0x4 => some (.skip (.differs f.x f.nn))
  | 0x5 => some (.skip (.same f.x f.y))
  | 0x6 => some (.set f.x f.nn)
  | 0x7 => some (.add f.x f.nn)
  | 0x8 => ofOperation? f
  | 0x9 => some (.skip (.distinct f.x f.y))
  | 0xA => some (.setIndex f.nnn)
  | 0xB => some (.jumpFrom f.nnn)
  | 0xC => some (.random f.x f.nn)
  | 0xD => some (.draw f.x f.y f.n)
  | 0xE => ofKeys? f
  | _   => ofMisc? f

def ofWord? (word : Int) : Option Instruction :=
  ofFields? (Word.fields word)

end Instruction
end Chip8
