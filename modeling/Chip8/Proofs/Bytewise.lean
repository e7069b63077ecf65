import Chip8.Machine.Access
import Chip8.Proofs.Blocks
import Chip8.Proofs.FaultCauses

namespace Chip8
namespace Memory

def readEach (m : Memory) (start : Int) : Nat → Except Fault (List UInt8)
  | 0         => .ok []
  | count + 1 => do
    let byte ← m.read start
    let rest ← m.readEach (start + 1) count
    return byte :: rest

def readRows (m : Memory) (rule : EdgeRule) (height y start : Int) : Nat → Except Fault (List UInt8)
  | 0         => .ok []
  | count + 1 => do
    let row ←
      match rule.place height y with
      | .ok (some _) => m.read start
      | _            => .ok 0
    let below ← m.readRows rule height (y + 1) (start + 1) count
    return row :: below

variable {m : Memory} {start a : Int} {count : Nat} {f : Fault}

theorem read_of_inside (m : Memory) (inside : 0 ≤ a ∧ a < 4096) : m.read a = .ok (m.byteAt a) :=
  if_pos inside

theorem read_of_outside (m : Memory) (outside : ¬(0 ≤ a ∧ a < 4096)) : m.read a = .error (.memoryAccess a) :=
  if_neg outside

theorem readEach_of_error (count : Nat) (read : m.read start = .error f) : m.readEach start (count + 1) = .error f := by
  rw [readEach, read]
  rfl

theorem readEach_of_ok {byte : UInt8} (count : Nat) (read : m.read start = .ok byte) :
    m.readEach start (count + 1) = (m.readEach (start + 1) count).map (byte :: ·) := by
  rw [readEach, read]
  change (m.readEach (start + 1) count >>= fun rest => pure (byte :: rest)) = _
  cases m.readEach (start + 1) count <;> rfl

theorem checkRange_of_inside (count : Nat) (inside : 0 ≤ start ∧ start < 4096) :
    checkRange start (count + 1 : Nat) = checkRange (start + 1) count := by
  have size : (size : Int) = 4096 := rfl
  simp only [checkRange, size]
  grind

theorem checkRange_of_outside (count : Nat) (outside : ¬(0 ≤ start ∧ start < 4096)) :
    checkRange start (count + 1 : Nat) = .error (.memoryAccess start) := by
  have size : (size : Int) = 4096 := rfl
  rw [checkRange, if_neg (by omega), if_pos (by omega)]

theorem checkRange_eq_toNat (start count : Int) : checkRange start count = checkRange start count.toNat := by
  by_cases empty : count ≤ 0
  case pos =>
    rw [Int.toNat_of_nonpos empty, checkRange, if_pos empty]
    rfl
  case neg => rw [Int.toNat_of_nonneg (by omega)]

theorem map_readEach_eq_checkRange (m : Memory) (start : Int) (count : Nat) :
    (m.readEach start count).map (fun _ => ()) = checkRange start count := by
  induction count generalizing start with
  | zero => rfl
  | succ count ih =>
    by_cases inside : 0 ≤ start ∧ start < 4096
    case pos =>
      rw [readEach_of_ok count (m.read_of_inside inside), checkRange_of_inside count inside, ← ih (start + 1)]
      cases m.readEach (start + 1) count <;> rfl
    case neg =>
      rw [readEach_of_error count (m.read_of_outside inside), checkRange_of_outside count inside]
      rfl

theorem readEach_eq_error_iff : m.readEach start count = .error f ↔ checkRange start count = .error f := by
  rw [← m.map_readEach_eq_checkRange]
  cases m.readEach start count <;> simp [Except.map]

theorem readEach_of_readBlock {block : List UInt8} (read : m.readBlock start count = .ok block) :
    m.readEach start count = .ok block := by
  rw [eq_of_readBlock read]
  have passes := checkRange_of_no_fault (blockFault?_of_readBlock read)
  -- Only the check is needed from here on, and `read` would get in the way of the induction.
  clear read
  induction count generalizing start with
  | zero => rfl
  | succ count ih =>
    have inside : 0 ≤ start ∧ start < 4096 := by
      by_contra outside
      cases passes.symm.trans (checkRange_of_outside count outside)
    rw [checkRange_of_inside count inside] at passes
    rw [readEach_of_ok count (m.read_of_inside inside), ih passes, List.range_succ_eq_map, List.map_cons, List.map_map]
    simp [Except.map, Function.comp_def, Int.add_assoc, Int.add_comm 1]

theorem exists_of_readEach_succ {block : List UInt8} (read : m.readEach start (count + 1) = .ok block) :
    ∃ byte rest, m.read start = .ok byte ∧ m.readEach (start + 1) count = .ok rest ∧ block = byte :: rest := by
  cases first : m.read start with
  | error f => cases read.symm.trans (readEach_of_error count first)
  | ok byte =>
    rw [readEach_of_ok count first] at read
    cases more : m.readEach (start + 1) count with
    | error f =>
      rw [more] at read
      cases read
    | ok rest =>
      rw [more] at read
      cases read
      exact ⟨byte, rest, rfl, rfl, rfl⟩

section

variable {rule : EdgeRule} {height y : Int}

-- A row that is left out falls on no pixel, so that any byte can stand for it.
theorem exists_row_read {byte : UInt8} {below : List UInt8} (first : m.read start = .ok byte)
    (more : m.readRows rule height (y + 1) (start + 1) count = .ok below) :
    ∃ row, m.readRows rule height y start (count + 1) = .ok (row :: below) ∧ ∀ width x rest,
      Sprite.targets rule width height x y (row :: rest) = Sprite.targets rule width height x y (byte :: rest) := by
  rcases placed : rule.place height y with e | (_ | y')
  case error | ok.none =>
    refine ⟨0, ?_, fun width x rest => ?_⟩
    · simp only [readRows, placed, more]
      rfl
    · simp only [Sprite.targets, placed]
      rfl
  case ok.some =>
    refine ⟨byte, ?_, fun width x rest => rfl⟩
    simp only [readRows, placed, first, more]
    rfl

theorem exists_readRows {block : List UInt8} (rule : EdgeRule) (height y : Int)
    (read : m.readEach start count = .ok block) :
    ∃ rows, m.readRows rule height y start count = .ok rows ∧
      ∀ width x, Sprite.targets rule width height x y rows = Sprite.targets rule width height x y block := by
  induction count generalizing start y block with
  | zero =>
    cases read
    exact ⟨[], rfl, fun _ _ => rfl⟩
  | succ count ih =>
    obtain ⟨byte, rest, first, more, rfl⟩ := exists_of_readEach_succ read
    obtain ⟨below, readBelow, sameBelow⟩ := ih (y + 1) more
    obtain ⟨row, readRow, sameRow⟩ := exists_row_read first readBelow
    refine ⟨row :: below, readRow, fun width x => ?_⟩
    calc Sprite.targets rule width height x y (row :: below)
      _ = Sprite.targets rule width height x y (byte :: below) := sameRow width x below
      _ = Sprite.targets rule width height x y (byte :: rest)  := by simp only [Sprite.targets, sameBelow]

end

end Memory

namespace Machine

structure FirstUnread (m : Machine) (start count a : Int) : Prop where
  inBlock : start ≤ a ∧ a < start + count
  fails   : m.read a = .error (.memoryAccess a)
  before  : ∀ b, start ≤ b → b < a → ∃ byte, m.read b = .ok byte

def writeEach (m : Machine) (start : Int) : List UInt8 → Except WriteError Machine
  | []           => .ok m
  | byte :: rest => do
    let m ← m.write start byte.toNat
    m.writeEach (start + 1) rest

def drawRows (m : Machine) (x y : Register) (rows : List UInt8) : Execution :=
  match Sprite.draw m.edge m.display (m.v.get x).toNat (m.v.get y).toNat rows with
  | .error e    => .crash (.display e) (m.setV flag 0)
  | .ok drawing => .done { m.setV flag drawing.collision.toUInt8 with
      display := drawing.display
      draw := m.draw || drawing.touched }

end Machine

-- The effect of an instruction when its block has passed the check and every byte is then accessed on its own, where an
-- access that fails is an error. The bytes are read before the first of them is used, which makes no difference because
-- neither registers nor pixels lie in memory.
def Instruction.runBytewise (m : Machine) : Instruction → Except WriteError Execution
  | draw x y height => do
    let rows ← (m.memory.readRows m.edge m.display.height (m.v.get y).toNat m.index height).mapError .outside
    return m.drawRows x y rows
  | storeDecimal x  => (m.writeEach m.index (Machine.decimalDigits (m.v.get x))).map .done
  | store x         => (m.writeEach m.index (m.v.toList.take (x + 1))).map .done
  | load x          => do
    let bytes ← (m.memory.readEach m.index (x + 1)).mapError .outside
    return .done { m with v := Vector.ofFn fun r => bytes.getD r (m.v.get r) }
  | i               => .ok (i.run m)

namespace Machine

variable {m : Machine} {start a : Int} {f : Fault}

theorem write_of_inside {value : Int} (m : Machine) (inside : 0 ≤ a ∧ a < 4096) (byte : 0 ≤ value ∧ value ≤ 255) :
    m.write a value =
      .ok { m with memory := m.memory.overwrite a.toNat [UInt8.ofNat value.toNat] } := by
  have written : m.memory.write a (UInt8.ofNat value.toNat) = _ := if_pos inside
  simp only [write, written]
  rw [if_pos (by omega)]

theorem read_overwrite (m : Machine) (inside : 0 ≤ a ∧ a < 4096) (byte : UInt8) :
    ({ m with memory := m.memory.overwrite a.toNat [byte] } : Machine).read a = .ok byte := by
  obtain ⟨i, rfl⟩ := Int.eq_ofNat_of_zero_le inside.left
  have fits : i + [byte].length ≤ Memory.size := Int.ofNat_lt.mp inside.right
  have held := m.memory.byteAt_overwrite fits Nat.one_pos
  exact (Memory.read_of_inside _ inside).trans (congrArg Except.ok held)

theorem writeEach_eq (m : Machine) (start : Nat) (bytes : List UInt8) (fits : start + bytes.length ≤ 4096) :
    m.writeEach start bytes = .ok { m with memory := m.memory.overwrite start bytes } := by
  induction bytes generalizing m start with
  | nil => rfl
  | cons byte rest ih =>
    rw [List.length_cons] at fits
    have := byte.toNat_lt
    have inside : 0 ≤ (start : Int) ∧ (start : Int) < 4096 := by omega
    have value : 0 ≤ (byte.toNat : Int) ∧ (byte.toNat : Int) ≤ 255 := by omega
    rw [writeEach, m.write_of_inside inside value, Int.toNat_natCast, Int.toNat_natCast, UInt8.ofNat_toNat]
    exact ih _ (start + 1) (by omega)

theorem firstUnread_of_firstOutside {count : Int} (first : Memory.FirstOutside start count.toNat a) :
    m.FirstUnread start count a where
  inBlock := by
    have := first.inBlock
    omega
  fails   := m.memory.read_of_outside first.outside
  before  := fun b low high => ⟨_, m.memory.read_of_inside (first.first b low high)⟩

theorem writeEach_eq_writeMemory (m : Machine) {bytes : List UInt8}
    (passes : Memory.checkRange m.index bytes.length = .ok ()) :
    (m.writeEach m.index bytes).map .done = .ok (m.writeMemory bytes) := by
  rw [writeMemory, m.memory.writeBlock_of_no_fault (Memory.blockFault?_of_ok passes)]
  rcases Memory.checkRange_eq_ok_iff.mp passes with empty | ⟨low, high⟩
  case inl =>
    obtain rfl : bytes = [] := List.eq_nil_of_length_eq_zero (by omega)
    rfl
  case inr =>
    have written := m.writeEach_eq m.index.toNat bytes (by omega)
    rw [Int.toNat_of_nonneg low] at written
    rw [written]
    rfl

theorem drawSprite_eq_drawRows {height : Fin 16} {rows : List UInt8} (x y : Register)
    (read : m.memory.readBlock m.index height = .ok rows) : m.drawSprite x y height = m.drawRows x y rows := by
  simp only [drawSprite, read]
  rfl

end Machine

namespace Instruction

variable {m : Machine} {i : Instruction} {f : Fault}

theorem runBytewise_of_passes (passes : Memory.checkRange m.index i.blockLength = .ok ()) :
    i.runBytewise m = .ok (i.run m) := by
  cases i
  case draw x y height =>
    rw [blockLength] at passes
    obtain ⟨block, read⟩ := m.memory.exists_readBlock (Memory.blockFault?_of_ok passes)
    obtain ⟨rows, readRows, same⟩ :=
      Memory.exists_readRows m.edge m.display.height (m.v.get y).toNat (Memory.readEach_of_readBlock read)
    have drawn : m.drawRows x y rows = m.drawRows x y block := by simp only [Machine.drawRows, Sprite.draw, same]
    rw [runBytewise, readRows, run, Machine.drawSprite_eq_drawRows x y read, ← drawn]
    rfl
  case load x =>
    rw [blockLength] at passes
    obtain ⟨block, read⟩ := m.memory.exists_readBlock (Memory.blockFault?_of_ok passes)
    rw [runBytewise, Memory.readEach_of_readBlock read, run, Machine.loadRegisters, read]
    rfl
  case storeDecimal x => exact m.writeEach_eq_writeMemory passes
  case store x =>
    refine m.writeEach_eq_writeMemory ?_
    rw [m.length_stored]
    exact passes
  all_goals rfl

theorem run_of_refused (refused : Memory.checkRange m.index i.blockLength = .error f) : i.run m = .fault f m := by
  refine run_of_fault ((fault?_eq_blockFault? ?notCall ?notRet).trans (Memory.blockFault?_of_error refused))
  case notCall =>
    rintro target rfl
    cases refused
  case notRet =>
    rintro rfl
    cases refused

end Instruction

namespace Machine

-- The check of a block finds what reading its bytes one after the other finds: the first address outside memory, or
-- that every byte of the block can be read and written. So an instruction whose block is refused has done nothing, and
-- one whose block has passed fails at none of its bytes.
theorem check_agrees_with_bytes (m : Machine) :
    (∀ start count : Int,
      (∀ f, Memory.checkRange start count = .error f ↔ m.memory.readEach start count.toNat = .error f) ∧
      (∀ f, m.memory.readEach start count.toNat = .error f →
        ∃ a, f = .memoryAccess a ∧ m.FirstUnread start count a) ∧
      (Memory.checkRange start count = .ok () ↔ count ≤ 0 ∨ 0 ≤ start ∧ start + count ≤ 4096) ∧
      (Memory.checkRange start count = .ok () → ∀ a, start ≤ a → a < start + count →
        (∃ byte, m.read a = .ok byte) ∧
        ∀ value, 0 ≤ value → value ≤ 255 →
          ∃ m', m.write a value = .ok m' ∧ m'.read a = .ok (UInt8.ofNat value.toNat))) ∧
    ∀ i : Instruction,
      (∀ f, Memory.checkRange m.index i.blockLength = .error f → i.run m = .fault f m) ∧
      (Memory.checkRange m.index i.blockLength = .ok () → i.runBytewise m = .ok (i.run m)) := by
  refine ⟨fun start count => ⟨fun f => ?agrees, fun f fails => ?first, Memory.checkRange_eq_ok_iff,
      fun passes a low high => ?passed⟩,
    fun i => ⟨fun f => Instruction.run_of_refused, Instruction.runBytewise_of_passes⟩⟩
  case agrees => rw [Memory.checkRange_eq_toNat, Memory.readEach_eq_error_iff]
  case first =>
    have fault := Memory.blockFault?_of_error (Memory.readEach_eq_error_iff.mp fails)
    obtain ⟨a, rfl, first⟩ := Memory.blockFault?_eq_some_iff.mp fault
    exact ⟨a, rfl, firstUnread_of_firstOutside first⟩
  case passed =>
    have inside : 0 ≤ a ∧ a < 4096 := by
      have := Memory.checkRange_eq_ok_iff.mp passes
      omega
    exact ⟨⟨_, m.memory.read_of_inside inside⟩, fun value least most =>
      ⟨_, m.write_of_inside inside ⟨least, most⟩, m.read_overwrite inside _⟩⟩

theorem fourth_byte_is_refused :
    let m := (holding [0xAF, 0xFD, 0x62, 0xEA]).after [.step, .step]
    let x := (Word.fields 0xF233).x
    let y := (Word.fields 0xF355).x
    (Memory.checkRange m.index 4 = .error (.memoryAccess 4096) ∧ m.FirstUnread m.index 4 4096 ∧
      (Instruction.store y).run m = .fault (.memoryAccess 4096) m) ∧
    (Memory.checkRange m.index 3 = .ok () ∧ (∃ m', m.write 4095 255 = .ok m' ∧ m'.read 4095 = .ok 255) ∧
      (Instruction.storeDecimal x).runBytewise m = .ok ((Instruction.storeDecimal x).run m)) := by
  intro m x y
  have index : m.index = 0xFFD := by decide +kernel
  have refused : Memory.checkRange m.index 4 = .error (.memoryAccess 4096) := by rw [index]; rfl
  have passes : Memory.checkRange m.index 3 = .ok () := by rw [index]; rfl
  obtain ⟨blocks, instructions⟩ := check_agrees_with_bytes m
  obtain ⟨agrees, first, _⟩ := blocks m.index 4
  obtain ⟨_, _, _, accessible⟩ := blocks m.index 3
  obtain ⟨a, same, unread⟩ := first _ ((agrees _).mp refused)
  cases same
  have last := accessible passes 4095 (by omega) (by omega)
  exact ⟨⟨refused, unread, (instructions (.store y)).left _ refused⟩, passes,
    last.right 255 (by decide) (by decide), (instructions (.storeDecimal x)).right passes⟩

end Machine

end Chip8
