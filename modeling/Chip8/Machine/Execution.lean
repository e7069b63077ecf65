import Chip8.Machine.Basic

namespace Chip8

-- What brings down the machine itself instead of ending in a fault.
inductive Crash where
  | display (e : DisplayError)
  | noReturn (e : IndexError)
  | noFrame (e : IndexError)
deriving DecidableEq

def Crash.message : Crash → String
  | display e  => e.message
  | noReturn e => e.readMessage
  | noFrame e  => e.writeMessage

inductive Execution where
  | done (m : Machine)
  | fault (f : Fault) (m : Machine)
  | crash (c : Crash) (m : Machine)

def Execution.machine : Execution → Machine
  | done m | fault _ m | crash _ m => m

namespace Operation

def result (a b : UInt8) : Operation → UInt8
  | copy         => b
  | or           => a ||| b
  | and          => a &&& b
  | xor          => a ^^^ b
  | add          => a + b
  | subtract     => a - b
  | shiftRight   => a >>> 1
  | subtractFrom => b - a
  | shiftLeft    => a <<< 1

def carry? (a b : UInt8) : Operation → Option Bool
  | copy | or | and | xor => none
  | add          => some (255 < a.toNat + b.toNat)
  | subtract     => some (b ≤ a)
  | shiftRight   => some (a.toNat.testBit 0)
  | subtractFrom => some (a ≤ b)
  | shiftLeft    => some (a.toNat.testBit 7)

end Operation

namespace Machine

def setV (m : Machine) (x : Register) (value : UInt8) : Machine :=
  { m with v := m.v.set x value }

-- The flag is written first, so that the result stands where the flag register is the target.
def combine (m : Machine) (op : Operation) (x y : Register) : Machine :=
  let a := m.v[x]
  let b := m.v[y]
  match op.carry? a b with
  | some carry => (m.setV flag carry.toUInt8).setV x (op.result a b)
  | none       => m.setV x (op.result a b)

def namedKey (m : Machine) (x : Register) : Fin 16 :=
  ⟨m.v[x].toNat % 16, Nat.mod_lt _ (by decide)⟩

def lowestKey? (m : Machine) : Option (Fin 16) :=
  (List.finRange 16).find? m.keys.get

def skip (m : Machine) : Machine :=
  { m with pc := m.pc + 2 }

def ret (m : Machine) : Execution :=
  if m.sp = 0 then
    .fault (.stackUnderflow (m.pc - 2)) m
  else
    match Index.entry m.stack.size (m.sp - 1) with
    | .ok i    => .done { m with sp := m.sp - 1, pc := m.stack[i] }
    | .error e => .crash (.noReturn e) { m with sp := m.sp - 1 }

def call (m : Machine) (target : Fin 4096) : Execution :=
  if m.stack.size ≤ m.sp then
    .fault (.stackOverflow (m.pc - 2)) m
  else
    match Index.entry m.stack.size m.sp with
    | .ok i    => .done { m with stack := m.stack.set i m.pc, sp := m.sp + 1, pc := target.val }
    | .error e => .crash (.noFrame e) m

def addIndex (m : Machine) (x : Register) : Machine :=
  let total := m.index + m.v[x].toNat
  { m.setV flag (decide (0xFFF < total)).toUInt8 with index := total % 0x10000 }

def decimalDigits (value : UInt8) : List UInt8 :=
  [value / 100, value / 10 % 10, value % 10]

def drawSprite (m : Machine) (x y : Register) (height : Fin 16) : Execution :=
  match m.memory.readBlock m.index height with
  | .error f => .fault f m
  | .ok rows =>
    match Sprite.draw m.edge m.display m.v[x].toNat m.v[y].toNat rows with
    | .error e => .crash (.display e) (m.setV flag 0)
    | .ok drawing => .done { m.setV flag drawing.collision.toUInt8 with
        display := drawing.display
        draw := m.draw || drawing.touched }

def writeMemory (m : Machine) (block : List UInt8) : Execution :=
  match m.memory.writeBlock m.index block with
  | .error f   => .fault f m
  | .ok memory => .done { m with memory }

def loadRegisters (m : Machine) (x : Register) : Execution :=
  match m.memory.readBlock m.index (x + 1) with
  | .error f  => .fault f m
  | .ok block => .done { m with v := Vector.ofFn fun r => block.getD r (m.v.get r) }

def advance (m : Machine) (word : Int) : Machine :=
  { m with draw := false, word, pc := m.pc + 2 }

end Machine

def Condition.holds (m : Machine) : Condition → Bool
  | equals x value  => m.v[x] = value
  | differs x value => m.v[x] ≠ value
  | same x y        => m.v[x] = m.v[y]
  | distinct x y    => m.v[x] ≠ m.v[y]
  | keyDown x       => m.keys[m.namedKey x]
  | keyUp x         => !m.keys[m.namedKey x]

-- The program counter is already past the instruction. Everything that can go wrong is checked before anything is
-- changed, so that a fault leaves the machine as it was when the instruction began.
def Instruction.run (m : Machine) : Instruction → Execution
  | clear          => .done { m with display := m.display.clear, draw := true }
  | ret            => m.ret
  | jump target    => .done { m with pc := target.val }
  | call target    => m.call target
  | skip condition => .done (if condition.holds m then m.skip else m)
  | set x value    => .done (m.setV x value)
  | add x value    => .done (m.setV x (m.v[x] + value))
  | combine op x y => .done (m.combine op x y)
  | setIndex a     => .done { m with index := a.val }
  | jumpFrom base  => .done { m with pc := m.v[0].toNat + base.val }
  | random x mask  =>
    let (number, source) := m.random.next
    .done { m.setV x (mask &&& number) with random := source }
  | draw x y height => m.drawSprite x y height
  | readDelay x    => .done (m.setV x m.delay)
  | awaitKey x     =>
    match m.lowestKey? with
    | some key => .done (m.setV x (UInt8.ofNat key))
    -- The instruction comes up again in the next cycle.
    | none     => .done { m with pc := m.pc - 2 }
  | setDelay x     => .done { m with delay := m.v[x] }
  | setSound x     => .done { m with sound := m.v[x] }
  | addIndex x     => .done (m.addIndex x)
  | glyph x        => .done { m with index := m.v[x].toNat * Font.glyphHeight }
  | storeDecimal x => m.writeMemory (Machine.decimalDigits m.v[x])
  | store x        => m.writeMemory (m.v.toList.take (x + 1))
  | load x         => m.loadRegisters x

def Machine.execute (m : Machine) (word : Int) : Execution :=
  let m := m.advance word
  match Instruction.ofWord? word with
  | some i => i.run m
  | none   => .fault (.unknownWord word) m

namespace Machine

-- An instruction that can end in more than one way comes with a proposition whose constructors are these ways.
inductive RetCases (m : Machine) : Prop
  | underflow (closed : m.sp = 0) (ret : m.ret = .fault (.stackUnderflow (m.pc - 2)) m)
  | back {j : Fin m.stack.size} (opened : m.sp ≠ 0) (entry : Index.entry m.stack.size (m.sp - 1) = .ok j)
    (ret : m.ret = .done { m with sp := m.sp - 1, pc := m.stack[j] })
  | noEntry {e : IndexError} (opened : m.sp ≠ 0) (entry : Index.entry m.stack.size (m.sp - 1) = .error e)
    (ret : m.ret = .crash (.noReturn e) { m with sp := m.sp - 1 })

theorem ret_cases (m : Machine) : m.RetCases := by
  by_cases h : m.sp = 0
  case pos => exact .underflow h (by simp only [ret, if_pos h])
  case neg =>
    cases entry : Index.entry m.stack.size (m.sp - 1) with
    | ok j    => exact .back h entry (by simp only [ret, if_neg h, entry])
    | error e => exact .noEntry h entry (by simp only [ret, if_neg h, entry])

inductive CallCases (m : Machine) (target : Fin 4096) : Prop
  | overflow (full : m.stack.size ≤ m.sp) (call : m.call target = .fault (.stackOverflow (m.pc - 2)) m)
  | push {j : Fin m.stack.size} (room : ¬m.stack.size ≤ m.sp) (entry : Index.entry m.stack.size m.sp = .ok j)
    (call : m.call target = .done { m with stack := m.stack.set j m.pc, sp := m.sp + 1, pc := target.val })
  | noEntry {e : IndexError} (room : ¬m.stack.size ≤ m.sp)
    (entry : Index.entry m.stack.size m.sp = .error e) (call : m.call target = .crash (.noFrame e) m)

theorem call_cases (m : Machine) (target : Fin 4096) : m.CallCases target := by
  by_cases h : m.stack.size ≤ m.sp
  case pos => exact .overflow h (by simp only [call, if_pos h])
  case neg =>
    cases entry : Index.entry m.stack.size m.sp with
    | ok j    => exact .push h entry (by simp only [call, if_neg h, entry])
    | error e => exact .noEntry h entry (by simp only [call, if_neg h, entry])

inductive DrawCases (m : Machine) (x y : Register) (height : Fin 16) : Prop
  | fault {f : Fault} (block : Memory.blockFault? m.index height = some f)
    (draw : m.drawSprite x y height = .fault f m)
  | drawn {rows : List UInt8} {drawing : Sprite.Drawing} (block : Memory.blockFault? m.index height = none)
    (read : m.memory.readBlock m.index height = .ok rows)
    (drew : Sprite.draw m.edge m.display m.v[x].toNat m.v[y].toNat rows = .ok drawing)
    (draw : m.drawSprite x y height = .done { m.setV flag drawing.collision.toUInt8 with
      display := drawing.display
      draw := m.draw || drawing.touched })
  | refused {rows : List UInt8} {e : DisplayError} (block : Memory.blockFault? m.index height = none)
    (read : m.memory.readBlock m.index height = .ok rows)
    (drew : Sprite.draw m.edge m.display m.v[x].toNat m.v[y].toNat rows = .error e)
    (draw : m.drawSprite x y height = .crash (.display e) (m.setV flag 0))

theorem draw_cases (m : Machine) (x y : Register) (height : Fin 16) : m.DrawCases x y height := by
  cases block : Memory.blockFault? m.index height with
  | some f => exact .fault block (by simp only [drawSprite, m.memory.readBlock_of_fault block])
  | none   =>
    have ⟨rows, read⟩ := m.memory.exists_readBlock block
    cases drew : Sprite.draw m.edge m.display m.v[x].toNat m.v[y].toNat rows with
    | ok _    => exact .drawn block read drew (by simp only [drawSprite, read, drew])
    | error _ => exact .refused block read drew (by simp only [drawSprite, read, drew])

inductive WriteCases (m : Machine) (bytes : List UInt8) : Prop
  | fault {f : Fault} (block : Memory.blockFault? m.index bytes.length = some f)
    (write : m.writeMemory bytes = .fault f m)
  | written (block : Memory.blockFault? m.index bytes.length = none)
    (write : m.writeMemory bytes = .done { m with memory := m.memory.overwrite m.index.toNat bytes })

theorem write_cases (m : Machine) (bytes : List UInt8) : m.WriteCases bytes := by
  cases block : Memory.blockFault? m.index bytes.length with
  | some f => exact .fault block (by simp only [writeMemory, m.memory.writeBlock_of_fault block])
  | none   => exact .written block (by simp only [writeMemory, m.memory.writeBlock_of_no_fault block])

inductive LoadCases (m : Machine) (x : Register) : Prop
  | fault {f : Fault} (block : Memory.blockFault? m.index (x + 1) = some f)
    (load : m.loadRegisters x = .fault f m)
  | loaded {bytes : List UInt8} (block : Memory.blockFault? m.index (x + 1) = none)
    (read : m.memory.readBlock m.index (x + 1) = .ok bytes)
    (load : m.loadRegisters x = .done { m with v := Vector.ofFn fun r => bytes.getD r (m.v.get r) })

theorem load_cases (m : Machine) (x : Register) : m.LoadCases x := by
  cases block : Memory.blockFault? m.index (x + 1) with
  | some f => exact .fault block (by simp only [loadRegisters, m.memory.readBlock_of_fault block])
  | none   =>
    have ⟨bytes, read⟩ := m.memory.exists_readBlock block
    exact .loaded block read (by simp only [loadRegisters, read])

end Machine
end Chip8
